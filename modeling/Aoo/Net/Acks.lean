import Aoo.Net.Delivery

/-!
# Nothing is given up before it has arrived

A sender drops a reliable message from its send buffer once every frame has been
acknowledged, and the receiver acknowledges what it has stored. The invariant of
this module follows an acknowledgement through both peers: the receiver has the
frame (`Stored`), and the frame is on the record of received frames. With it,
the frames that a sender no longer counts as outstanding have been received,
and so have all frames of the messages it has dropped.

A message without content breaks this: `send_message` counts it as zero frames,
so it is complete from the start and dropped by the next `do_send`, although it
travels as one packet (`empty_message_dropped`). The results are therefore about
runs in which reliable messages have content. As in `Net.Delivery`, packets that
do not fit the buffer of their sender are the other fault.
-/

namespace Aoo.Net

open Lib

/-- The peer has stored the frame that an acknowledgement names, or has
completed its message. -/
def Stored (p : Peer) (a : MessageAck) : Prop :=
  a.sequence ≤ p.receiveBuffer.lastPopped ∨
    ((p.receiveBuffer.msgAt a.sequence).data ≠ none ∧
      a.frameIndex.toNat ∉ (p.receiveBuffer.msgAt a.sequence).frames)

/-- The receiving half: frames that a message no longer expects have been
received, all frames of completed messages have been received, and so have the
frames that wait to be acknowledged. -/
structure HeldInv (p : Peer) (sent : Bool → Log) (received : List MessageAck) : Prop where
  held : ∀ (n : Nat) (m : Message) (ms i : Nat), p.receiveBuffer.lastPopped < n →
    (sent true)[n]? = some (m, ms) → (p.receiveBuffer.msgAt n).data ≠ none →
    i < wireFrames m.data.data.length ms → i ∉ (p.receiveBuffer.msgAt n).frames →
    ⟨n, i⟩ ∈ received
  done : ∀ (n : Nat) (m : Message) (ms i : Nat), n ≤ p.receiveBuffer.lastPopped →
    (sent true)[n]? = some (m, ms) → i < wireFrames m.data.data.length ms → ⟨n, i⟩ ∈ received
  acks : ∀ a ∈ p.sendAcks, Stored p a ∧ a ∈ received

/-- The sending half, against the frames that the other side has received. -/
structure KeptInv (p : Peer) (sent : Bool → Log) (received : List MessageAck) : Prop where
  content : ∀ m ms, (m, ms) ∈ sent true → m.data.data ≠ []
  acks : ∀ a ∈ p.receivedAcks, a ∈ received
  outstanding : ∀ sm ∈ p.sendBuffer, ∀ i < sm.numFrames, i ∉ sm.frames →
    ⟨sm.sequence, i⟩ ∈ received
  dropped : ∀ (q : Nat) (m : Message) (ms i : Nat), (sent true)[q]? = some (m, ms) →
    (∀ sm ∈ p.sendBuffer, sm.sequence ≠ q) → i < wireFrames m.data.data.length ms →
    ⟨q, i⟩ ∈ received

/-- The invariant of the system, on top of `Inv`. -/
def AckInv (s : System) : Prop :=
  ∀ x, KeptInv (s.peer x) (s.sent x) (s.received !x) ∧
    (∀ d ∈ s.net x, ∀ a ∈ acksOf d, Stored (s.peer x) a ∧ a ∈ s.received x) ∧
    HeldInv (s.peer x) (s.sent !x) (s.received x)

/-! ## Growing logs and records -/

theorem KeptInv.mono {p : Peer} {sent : Bool → Log} {received received' : List MessageAck}
    (h : KeptInv p sent received) (hr : ∀ a ∈ received, a ∈ received') :
    KeptInv p sent received' :=
  ⟨h.content, fun a ha => hr _ (h.acks a ha),
    fun sm hsm i hi hF => hr _ (h.outstanding sm hsm i hi hF),
    fun q m ms i hq hno hi => hr _ (h.dropped q m ms i hq hno hi)⟩

/-- What a receiver has begun or completed is in the log already, so a longer
log asks nothing new. -/
theorem HeldInv.mono {p : Peer} {sent sent' : Bool → Log} {received : List MessageAck}
    (h : HeldInv p sent received) (hrec : ReceiverInv p sent) (hg : Grows sent sent') :
    HeldInv p sent' received := by
  refine ⟨fun n m ms i hn hq hd hi hF => ?_, fun n m ms i hn hq hi => ?_, h.acks⟩
  · obtain ⟨n', m', ms', hn', hq', -⟩ := hrec.stored n hn hd
    have hnn : n' = n := by omega
    subst hnn
    have hq'' := hg _ _ _ hq'
    rw [hq] at hq''
    cases hq''
    exact h.held _ m ms i hn hq' hd hi hF
  · have hcount := hrec.count
    obtain ⟨m', ms', hq', -⟩ := hrec.order n _
      (List.getElem?_eq_getElem (show n < (delivered p).length by omega))
    have hq'' := hg _ _ _ hq'
    rw [hq] at hq''
    cases hq''
    exact h.done n m ms i hn hq' hi

/-! ## Sending -/

theorem sendMessage_kept {p p' : Peer} {sent : Bool → Log} {received : List MessageAck}
    {m : Message} {packetSize : PacketSize} {binary : Bool} {ds : List Datagram}
    (hs : SenderInv p sent) (h : KeptInv p sent received)
    (hn : numFrames m.data.data.length (maxsize packetSize binary) ≤ 256)
    (hne : m.reliable = true → m.data.data ≠ [])
    (hsend : sendMessage p m packetSize binary = .ok (p', ds)) :
    KeptInv p' (addToLog sent m (maxsize packetSize binary)) received := by
  obtain ⟨packets, hsend, -⟩ := sendMessage_ok.mp hsend
  rw [sendMessageFrames] at hsend
  by_cases hrel : m.reliable
  · simp only [if_pos hrel, SentMessage.new_eq _ _ _ _ hn] at hsend
    cases hsend
    have hlog : addToLog sent m (maxsize packetSize binary) true =
        sent true ++ [(m, maxsize packetSize binary)] := by
      rw [addToLog, hrel, Function.update_self]
    refine ⟨fun m' ms' hmem => ?_, h.acks, fun sm hsm i hi hF => ?_,
      fun q m' ms' i hq hno hi => ?_⟩
    · rw [hlog, List.mem_append, List.mem_singleton] at hmem
      rcases hmem with hmem | heq
      · exact h.content m' ms' hmem
      · cases heq
        exact hne hrel
    · rcases List.mem_append.mp hsm with hsm | hsm
      · exact h.outstanding sm hsm i hi hF
      · rw [List.mem_singleton.mp hsm] at hi hF
        exact absurd (Finset.mem_range.mpr hi) hF
    · -- the new message is in the buffer, so `q` is an old one
      rw [hlog] at hq
      have hlt : q < (sent true).length := by
        obtain ⟨hlt, -⟩ := List.getElem?_eq_some_iff.mp hq
        rw [List.length_append, List.length_singleton] at hlt
        by_contra hge
        refine hno _ (List.mem_append_right _ (List.mem_singleton_self _)) ?_
        simp only [hs.reliable]
        omega
      rw [List.getElem?_append_left hlt] at hq
      exact h.dropped q m' ms' i hq (fun sm hsm => hno sm (List.mem_append_left _ hsm)) hi
  · have hrel : m.reliable = false := by simpa using hrel
    simp only [hrel, Bool.false_eq_true, if_false] at hsend
    cases hsend
    have hlog : addToLog sent m (maxsize packetSize binary) true = sent true := by
      rw [addToLog, hrel, Function.update_of_ne (by decide)]
    refine ⟨?_, h.acks, h.outstanding, ?_⟩
    · rw [hlog]
      exact h.content
    · rw [hlog]
      exact h.dropped

/-- Messages with content have as many frames as the receiver expects. -/
theorem wireFrames_eq {size ms : Nat} (hms : 0 < ms) (h : 0 < size) :
    wireFrames size ms = numFrames size ms := by
  have hle := @size_le_numFrames size ms hms
  have hpos : 0 < numFrames size ms := by
    rcases Nat.eq_zero_or_pos (numFrames size ms) with h0 | h0
    · rw [h0] at hle
      omega
    · exact h0
  unfold wireFrames
  omega

theorem doSend_kept {p p' : Peer} {sent : Bool → Log} {received : List MessageAck}
    {due : List Int} {binary : Bool} {ds : List Datagram} (hs : SenderInv p sent)
    (h : KeptInv p sent received) (hsend : doSend p due binary = .ok (p', ds)) :
    KeptInv p' sent received := by
  obtain ⟨packets, ds', hsend, -⟩ := doSend_ok.mp hsend
  rw [doSendFrames] at hsend
  split at hsend
  next => cases hsend
  next buffer hbuf =>
    cases hsend
    have hfrom : ∀ sm ∈ buffer, ∃ sm₀ ∈ p.sendBuffer, ∃ F, sm = { sm₀ with frames := F } ∧
        ∀ i : Nat, i ∉ F → i ∉ sm₀.frames ∨ ⟨sm₀.sequence, i⟩ ∈ p.receivedAcks := fun sm hsm =>
      handleIncomingAcks_mem (fun a ha => (hs.acks a ha).index.1) hbuf hsm
    have hout : ∀ sm ∈ buffer, ∀ i < sm.numFrames, i ∉ sm.frames →
        ⟨sm.sequence, i⟩ ∈ received := by
      intro sm hsm i hi hF
      obtain ⟨sm₀, hsm₀, F, rfl, hFr⟩ := hfrom sm hsm
      rcases hFr i hF with hF₀ | hack
      · exact h.outstanding sm₀ hsm₀ i hi hF₀
      · exact h.acks _ hack
    refine ⟨h.content, fun a ha => (by cases ha),
      fun sm hsm => hout sm ((List.dropWhile_sublist _).mem hsm), fun q m ms i hq hno hi => ?_⟩
    by_cases hold : ∀ sm ∈ p.sendBuffer, sm.sequence ≠ q
    · exact h.dropped q m ms i hq hold hi
    · -- the message was in the buffer and is dropped now: it is complete
      push Not at hold
      obtain ⟨sm₀, hsm₀, hseq₀⟩ := hold
      have hseqs := handleIncomingAcks_sequence hbuf
      obtain ⟨sm, hsm, hseq⟩ : ∃ sm ∈ buffer, sm.sequence = q := by
        have hmem : (q : Int) ∈ buffer.map (·.sequence) := by
          rw [hseqs]
          exact List.mem_map.mpr ⟨sm₀, hsm₀, hseq₀⟩
        exact List.mem_map.mp hmem
      have hcomplete : sm.complete = true := by
        rw [← List.takeWhile_append_dropWhile (p := (·.complete)) (l := buffer),
          List.mem_append] at hsm
        rcases hsm with hsm | hsm
        · exact List.all_eq_true.mp List.all_takeWhile sm hsm
        · exact absurd hseq (hno sm hsm)
      obtain ⟨sm₁, hsm₁, F, rfl, -⟩ := hfrom sm hsm
      obtain ⟨q', m', ms', F', hq', rfl⟩ := hs.buffer sm₁ hsm₁
      have hqq : q' = q := by
        have : (q' : Int) = q := hseq
        omega
      subst hqq
      rw [hq] at hq'
      cases hq'
      have hcont := h.content m ms (List.mem_of_getElem? hq)
      have hms := (hs.log.entry true m ms (List.mem_of_getElem? hq)).2.1
      rw [wireFrames_eq hms (List.length_pos_iff.mpr hcont)] at hi
      refine hout _ hsm i hi ?_
      have hF : F = ∅ := by simpa [SentMessage.complete] using hcomplete
      simp [hF]

/-! ## Receiving -/

/-- What a frame does to the frames that its message expects: it is no longer
one of them, and no other changes. -/
theorem addToMessage_frames {b : MessageReceiveBuffer} {sent : Bool → Log} {p : MessagePacket}
    {flags : Nat} {m : Message} {ms q i : Nat} {r : ReceivedMessage} {ok : Bool}
    (hinv : ReceiveInv b) (hpop : b.lastPopped < p.sequence)
    (hf : FrameFrom sent p flags m ms q i) (hn : numFrames m.data.data.length ms ≤ 256)
    (h : addToMessage b p = .ok (r, ok)) :
    i ∉ r.frames ∧
      (∀ j < wireFrames m.data.data.length ms, j ∉ r.frames →
        j = i ∨ ((b.msgAt p.sequence).data ≠ none ∧ j ∉ (b.msgAt p.sequence).frames)) ∧
      ((b.msgAt p.sequence).data ≠ none → r.frames ⊆ (b.msgAt p.sequence).frames) := by
  obtain ⟨-, -, -, htotal, hnum, hidx⟩ := hf.fields
  have hi : i < wireFrames m.data.data.length ms := by
    obtain ⟨-, -, o, l, p₀, -, hf₀⟩ := hf
    exact hf₀.index_lt
  have hidx256 : FrameIndexOk p.frameIndex := by
    rw [hidx]
    exact (hf.frameInside hn).1
  have htoNat : p.frameIndex.toNat = i := by
    rw [hidx]
    rfl
  have hsize : 0 ≤ p.totalSize := by omega
  have hnum256 : p.numFrames ≤ 256 := by
    rw [hnum, wireFrames]
    omega
  -- a message that was just initialised expects every frame
  have hfresh : ∀ (r₀ r₁ : ReceivedMessage), r₀.frames = ∅ → (r₀.initialised p.type p.tt
      p.numFrames p.totalSize (List.replicate p.totalSize.toNat none)).addFrame p.frameIndex
        p.data = .ok r₁ → i ∉ r₁.frames ∧
          ∀ j < wireFrames m.data.data.length ms, j ∉ r₁.frames → j = i := by
    intro r₀ r₁ h₀ ha
    have hfit := ReceivedMessage.addFrame_ok_iff.mp ⟨_, ha⟩
    rw [ReceivedMessage.addFrame_eq hfit] at ha
    cases ha
    simp only [ReceivedMessage.withFrame, ReceivedMessage.initialised, h₀, Finset.empty_union,
      Finset.mem_erase, Finset.mem_range, htoNat, hnum, Int.toNat_natCast]
    refine ⟨fun hc => hc.1 rfl, fun j hj hc => ?_⟩
    by_contra hne
    exact hc ⟨hne, hj⟩
  rw [addToMessage] at h
  split at h
  next hnew =>
    rw [msgAt_of_gt hinv hnew]
    rw [addNewMessage, ReceivedMessage.init_eq _ _ _ hsize hnum256] at h
    simp only at h
    split at h
    next r₁ ha =>
      cases h
      obtain ⟨h1, h2⟩ := hfresh _ _ rfl ha
      exact ⟨h1, fun j hj hc => Or.inl (h2 j hj hc), fun hd => absurd rfl hd⟩
    next => cases h
  next =>
    rw [addToExisting] at h
    by_cases hp : (b.msgAt p.sequence).placeholder
    · have hnone : (b.msgAt p.sequence).data = none := Option.isNone_iff_eq_none.mp hp
      have hempty := (msgAt_sized hinv hpop).none hnone
      rw [if_pos hp, ReceivedMessage.init_eq _ _ _ hsize hnum256] at h
      simp only [addMissingFrame, ReceivedMessage.hasFrame_eq hidx256] at h
      have hmem : i ∈ ((b.msgAt p.sequence).initialised p.type p.tt p.numFrames p.totalSize
          (List.replicate p.totalSize.toNat none)).frames := by
        simp only [ReceivedMessage.initialised, hempty, Finset.empty_union, Finset.mem_range, hnum,
          Int.toNat_natCast]
        exact hi
      simp only [htoNat, hmem, not_true_eq_false, decide_false] at h
      split at h
      next r₁ ha =>
        cases h
        obtain ⟨h1, h2⟩ := hfresh _ _ hempty ha
        exact ⟨h1, fun j hj hc => Or.inl (h2 j hj hc), fun hd => absurd hnone hd⟩
      next => cases h
    · have hsome : (b.msgAt p.sequence).data ≠ none := fun hd =>
        hp (by rw [ReceivedMessage.placeholder, hd]; rfl)
      rw [if_neg hp] at h
      simp only [addMissingFrame, ReceivedMessage.hasFrame_eq hidx256, htoNat] at h
      by_cases hmem : i ∈ (b.msgAt p.sequence).frames
      · simp only [hmem, not_true_eq_false, decide_false] at h
        split at h
        next r₁ ha =>
          cases h
          have hfit := ReceivedMessage.addFrame_ok_iff.mp ⟨_, ha⟩
          rw [ReceivedMessage.addFrame_eq hfit] at ha
          cases ha
          simp only [ReceivedMessage.withFrame, htoNat]
          refine ⟨Finset.notMem_erase _ _, fun j hj hc => ?_, fun _ => Finset.erase_subset _ _⟩
          by_cases hji : j = i
          · exact Or.inl hji
          · exact Or.inr ⟨hsome, fun hc' => hc (Finset.mem_erase.mpr ⟨hji, hc'⟩)⟩
        next => cases h
      · simp only [hmem, not_false_eq_true, decide_true] at h
        cases h
        exact ⟨hmem, fun j hj hc => Or.inr ⟨hsome, hc⟩, fun _ => Finset.Subset.refl _⟩

/-- **One frame of a reliable message.** What was stored stays stored, and the
frame is on the record before it is acknowledged. -/
theorem held_of_frame {peer peer' : Peer} {sent : Bool → Log} {received : List MessageAck}
    {p : MessagePacket} {flags : Nat} {m : Message} {ms q i : Nat} (hrec : ReceiverInv peer sent)
    (hlog : LogOk sent) (hf : FrameFrom sent p flags m ms q i) (hrel : m.reliable = true)
    (h : HeldInv peer sent received) (hd : doHandleClientMessage peer p flags = .ok peer') :
    HeldInv peer' sent (received ++ [⟨p.sequence, p.frameIndex⟩]) ∧
      ∀ a, Stored peer a → Stored peer' a := by
  obtain ⟨-, -, -, hn⟩ := hlog.entry _ m ms (List.mem_of_getElem? hf.1)
  obtain ⟨-, -, hseq, -, -, hidx⟩ := hf.fields
  have hbit : hasBit flags kAooMessageReliable = true := hf.2.1.trans hrel
  have hold : ∀ a, a ∈ received → a ∈ received ++ [⟨p.sequence, p.frameIndex⟩] :=
    fun a ha => List.mem_append_left _ ha
  have hnew : (⟨q, i⟩ : MessageAck) ∈ received ++ [⟨p.sequence, p.frameIndex⟩] := by
    rw [hseq, hidx]
    exact List.mem_append_right _ (List.mem_singleton_self _)
  by_cases hpop : p.sequence ≤ peer.receiveBuffer.lastPopped
  · rw [doHandleClientMessage, if_pos hbit, if_pos hpop] at hd
    cases hd
    refine ⟨⟨fun n m ms j h1 h2 h3 h4 h5 => hold _ (h.held n m ms j h1 h2 h3 h4 h5),
      fun n m ms j h1 h2 h3 => hold _ (h.done n m ms j h1 h2 h3), fun a ha => ?_⟩, fun _ ha => ha⟩
    rcases List.mem_append.mp ha with ha | ha
    · exact ⟨(h.acks a ha).1, hold _ (h.acks a ha).2⟩
    · rw [List.mem_singleton.mp ha]
      exact ⟨Or.inl hpop, List.mem_append_right _ (List.mem_singleton_self _)⟩
  · have hsafe := messageSafe_of_frame hrec hlog hf
    rw [MessageSafe, if_pos hbit, or_iff_right hpop,
      ← addToMessage_ok_iff hrec.inv.receive (by omega)] at hsafe
    obtain ⟨⟨r, ok⟩, hr⟩ := hsafe
    obtain ⟨rfl, hdata, hh⟩ :=
      addToMessage_header hf hn (hrec.stored_header hf hrel (by omega)) hr
    obtain ⟨hi, hother, hsub⟩ := addToMessage_frames hrec.inv.receive (by omega) hf hn hr
    obtain ⟨b₁, b₂, k, hu, hp, heq⟩ :=
      doHandleClientMessage_reliable hrec.inv hbit (by omega) hr hd
    have hb : peer'.receiveBuffer = b₂ := by rw [heq]
    have ha : peer'.sendAcks = peer.sendAcks ++ [⟨p.sequence, p.frameIndex⟩] := by rw [heq]
    have hpopped : b₂.lastPopped = peer.receiveBuffer.lastPopped + k := by
      rw [hp.popped, hu.popped]
    have hlogq : (sent true)[q]? = some (m, ms) := by
      rw [← hrel]
      exact hf.1
    -- the record covers the buffer between the two halves of the step
    have hmid : ∀ (n : Nat) (m' : Message) (ms' j : Nat), peer.receiveBuffer.lastPopped < n →
        (sent true)[n]? = some (m', ms') → (b₁.msgAt n).data ≠ none →
        j < wireFrames m'.data.data.length ms' → j ∉ (b₁.msgAt n).frames →
        ⟨n, j⟩ ∈ received ++ [⟨p.sequence, p.frameIndex⟩] := by
      intro n m' ms' j hlt hq' hd' hj hF
      rw [hu.at_eq n hlt] at hd' hF
      by_cases hnq : (n : Int) = p.sequence
      · rw [if_pos hnq] at hF
        have hnq' : n = q := by omega
        subst hnq'
        rw [hlogq] at hq'
        cases hq'
        rcases hother j hj hF with rfl | ⟨hd'', hF''⟩
        · exact hnew
        · rw [← hnq] at hd'' hF''
          exact hold _ (h.held n m ms j hlt hlogq hd'' hj hF'')
      · rw [if_neg hnq] at hd' hF
        exact hold _ (h.held n m' ms' j hlt hq' hd' hj hF)
    have hstored : ∀ a, Stored peer a → Stored peer' a := by
      intro a hs
      rw [Stored, hb]
      by_cases hle : a.sequence ≤ b₂.lastPopped
      · exact Or.inl hle
      · refine Or.inr ?_
        rw [hp.at_eq _ (by omega), hu.at_eq _ (by omega)]
        rcases hs with hs | ⟨hs1, hs2⟩
        · omega
        · by_cases hsq : a.sequence = p.sequence
          · rw [if_pos hsq]
            rw [hsq] at hs1 hs2
            exact ⟨hdata, fun hc => hs2 (hsub hs1 hc)⟩
          · rw [if_neg hsq]
            exact ⟨hs1, hs2⟩
    refine ⟨⟨fun n m' ms' j hlt hq' hd' hj hF => ?_, fun n m' ms' j hle hq' hj => ?_,
      fun a ha' => ?_⟩, hstored⟩
    · rw [hb] at hlt hd' hF
      rw [hp.at_eq n hlt] at hd' hF
      exact hmid n m' ms' j (by omega) hq' hd' hj hF
    · rw [hb] at hle
      by_cases hle' : (n : Int) ≤ peer.receiveBuffer.lastPopped
      · exact hold _ (h.done n m' ms' j hle' hq' hj)
      · -- handed over in this step, hence complete
        have hcomp := hp.complete (n - (peer.receiveBuffer.lastPopped + 1)).toNat (by omega)
        rw [hu.popped, show peer.receiveBuffer.lastPopped + 1 +
          ((n - (peer.receiveBuffer.lastPopped + 1)).toNat : Int) = n by omega,
          ReceivedMessage.complete, Bool.and_eq_true, decide_eq_true_eq] at hcomp
        refine hmid n m' ms' j (by omega) hq' (fun hnone => ?_) hj (by rw [hcomp.2]; simp)
        rw [hnone] at hcomp
        exact absurd hcomp.1 (by simp)
    · rw [ha] at ha'
      rcases List.mem_append.mp ha' with ha' | ha'
      · exact ⟨hstored a (h.acks a ha').1, hold _ (h.acks a ha').2⟩
      · rw [List.mem_singleton.mp ha']
        refine ⟨?_, List.mem_append_right _ (List.mem_singleton_self _)⟩
        rw [Stored, hb]
        by_cases hle : p.sequence ≤ b₂.lastPopped
        · exact Or.inl hle
        · refine Or.inr ?_
          simp only
          rw [hp.at_eq _ (by omega), hu.at_eq _ (by omega), if_pos rfl, hidx]
          exact ⟨hdata, hi⟩

/-! ## Steps of the system -/

theorem HeldInv.of_eq {p p' : Peer} {sent : Bool → Log} {received : List MessageAck}
    (h : HeldInv p sent received) (hb : p'.receiveBuffer = p.receiveBuffer)
    (ha : ∀ a ∈ p'.sendAcks, a ∈ p.sendAcks) : HeldInv p' sent received := by
  refine ⟨?_, ?_, fun a hm => ?_⟩
  · rw [hb]
    exact h.held
  · rw [hb]
    exact h.done
  · have := h.acks a (ha a hm)
    rw [Stored] at this ⊢
    rw [hb]
    exact this

/-- Reliable messages that are sent have content. -/
def Action.HasContent : Action → Prop
  | .sendMessage _ m _ _ => m.reliable = true → m.data.data ≠ []
  | _ => True

/-- A datagram from the other side keeps the receiving half, and adds to the
record what it brings. -/
theorem handlePacket_held {p p' : Peer} {sent sent₂ : Bool → Log}
    {received received₂ : List MessageAck} {d : Datagram} (hrec : ReceiverInv p sent₂)
    (hlog : LogOk sent₂) (hd : Good sent₂ d) (hacks : ∀ a ∈ acksOf d, a ∈ received₂)
    (hk : KeptInv p sent received₂) (hh : HeldInv p sent₂ received)
    (hp : handlePacket p d = .ok p') :
    KeptInv p' sent received₂ ∧ HeldInv p' sent₂ (received ++ receivedFrames p d) ∧
      ∀ a, Stored p a → Stored p' a := by
  rcases handlePacket_cases hp with ⟨haddr, rfl⟩ | ⟨haddr, packet, flags, hmsg, hdo⟩ |
    ⟨haddr, hmsg, rfl⟩
  · have hnil : receivedFrames p' d = [] := by simp [receivedFrames, haddr]
    rw [hnil, List.append_nil]
    exact ⟨hk, hh, fun _ h => h⟩
  · obtain ⟨m, ms, q, i, hf⟩ := hd.message packet flags hmsg
    obtain ⟨-, -, h3, h4⟩ := doHandleClientMessage_sender hdo
    have hk' : KeptInv p' sent received₂ := by
      refine ⟨hk.content, ?_, ?_, ?_⟩
      · rw [h4]
        exact hk.acks
      · rw [h3]
        exact hk.outstanding
      · rw [h3]
        exact hk.dropped
    have hrec' : ReceiverInv { p with binaryAck := binaryOf d } sent₂ :=
      hrec.of_eq rfl rfl rfl (fun _ h => h)
    have hh' : HeldInv { p with binaryAck := binaryOf d } sent₂ received :=
      hh.of_eq rfl (fun _ h => h)
    by_cases hrel : m.reliable
    · have hone : receivedFrames p d = [⟨packet.sequence, packet.frameIndex⟩] := by
        simp [receivedFrames, haddr, hmsg, hf.2.1, hrel]
      rw [hone]
      obtain ⟨h1, h2⟩ := held_of_frame hrec' hlog hf hrel hh' hdo
      exact ⟨hk', h1, h2⟩
    · have hrel : m.reliable = false := by simpa using hrel
      have hnil : receivedFrames p d = [] := by
        simp [receivedFrames, haddr, hmsg, hf.2.1, hrel]
      obtain ⟨es, -, heq⟩ := doHandleClientMessage_unreliable (hf.2.1.trans hrel) hdo
      have hb : p'.receiveBuffer = p.receiveBuffer := by rw [heq]
      have ha : p'.sendAcks = p.sendAcks := by rw [heq]
      rw [hnil, List.append_nil]
      refine ⟨hk', hh.of_eq hb (fun a h => ha ▸ h), fun a hs => ?_⟩
      rw [Stored, hb]
      exact hs
  · have hnil : receivedFrames p d = [] := by simp [receivedFrames, haddr, hmsg]
    rw [hnil, List.append_nil]
    refine ⟨⟨hk.content, fun a ha => ?_, hk.outstanding, hk.dropped⟩,
      hh.of_eq rfl (fun _ h => h), fun _ h => h⟩
    rcases List.mem_append.mp ha with ha | ha
    · exact hk.acks a ha
    · exact hacks a ha

/-- **One step** keeps the record of acknowledged frames. -/
theorem step_ackInv {s s' : System} {a : Action} (h : Inv s) (ha : AckInv s)
    (hframes : a.FramesOk) (hcontent : a.HasContent)
    (hcount : ∀ x r, (s.sent x r).length + a.sends x r ≤ 2147483648)
    (hs : step s a = .ok s') : AckInv s' := by
  have hfits := fits_of_step hs
  cases a with
  | sendMessage x m packetSize binary =>
    have hc := hcount x m.reliable
    rw [Action.sends, if_pos ⟨rfl, rfl⟩] at hc
    obtain ⟨p', ds, hsend, -, hgood, hb, -, -, hack⟩ := sendMessage_inv (h x).1 hframes hc hfits
    -- the frames of a new message are not acknowledged yet, and its packets carry no acknowledgements
    have hkept := sendMessage_kept (h x).1 (ha x).1 hframes hcontent hsend
    rw [step, hsend] at hs
    cases hs
    intro y
    by_cases hy : y = x
    · subst hy
      simp only [System.update, Function.update_self]
      rw [Function.update_of_ne (by cases y <;> decide)]
      refine ⟨hkept, fun d hd a' ha' => ?_, (ha y).2.2.of_eq hb (fun a h => hack ▸ h)⟩
      rcases List.mem_append.mp hd with hd | hd
      · rw [Stored, hb]
        exact (ha y).2.1 d hd a' ha'
      · rw [(hgood d hd).2] at ha'
        cases ha'
    · have hx : (!y) = x := by
        cases x <;> cases y <;> simp_all
      simp only [System.update, Function.update_of_ne hy, hx, Function.update_self]
      have hthis := ha y
      have hrec := (h y).2.2
      rw [hx] at hthis hrec
      exact ⟨hthis.1, hthis.2.1,
        hthis.2.2.mono hrec (grows_addToLog (s.sent x) m (maxsize packetSize binary))⟩
  | doSend x due binary =>
    obtain ⟨p', ds, hsend, -, hgood, -, hb, hnil⟩ := doSend_inv (h x).1 (h x).2.2 hfits
    -- the acknowledgements that go out are those that were waiting
    have hkept := doSend_kept (h x).1 (ha x).1 hsend
    rw [step, hsend] at hs
    cases hs
    intro y
    by_cases hy : y = x
    · subst hy
      simp only [System.update, Function.update_self]
      refine ⟨hkept, fun d hd a' ha' => ?_, (ha y).2.2.of_eq hb (fun a h => ?_)⟩
      · rw [Stored, hb]
        rcases List.mem_append.mp hd with hd | hd
        · exact (ha y).2.1 d hd a' ha'
        · exact (ha y).2.2.acks a' ((hgood d hd).2 a' ha')
      · rw [hnil] at h
        cases h
    · simp only [System.update, Function.update_of_ne hy]
      exact ha y
  | deliver x k =>
    rw [step] at hs
    cases hd : (s.net !x)[k]? with
    | none =>
      rw [hd] at hs
      cases hs
      exact ha
    | some d =>
      rw [hd] at hs
      simp only at hs
      split at hs
      next => cases hs
      next p' hp' =>
        cases hs
        have hmem := List.mem_of_getElem? hd
        -- a packet acknowledges frames that the other side has stored
        obtain ⟨hk, hh, hst⟩ := handlePacket_held (h x).2.2 (h !x).1.log ((h !x).2.1 d hmem)
          (fun a' ha' => ((ha !x).2.1 d hmem a' ha').2) (ha x).1 (ha x).2.2 hp'
        intro y
        by_cases hy : y = x
        · subst hy
          simp only [System.update, Function.update_self, List.append_nil]
          rw [Function.update_of_ne (by cases y <;> decide)]
          refine ⟨hk, fun d' hd' a' ha' => ?_, hh⟩
          obtain ⟨h1, h2⟩ := (ha y).2.1 d' hd' a' ha'
          exact ⟨hst a' h1, List.mem_append_left _ h2⟩
        · have hx : (!y) = x := by
            cases x <;> cases y <;> simp_all
          simp only [System.update, Function.update_of_ne hy, hx, Function.update_self]
          have hthis := ha y
          rw [hx] at hthis
          exact ⟨hthis.1.mono (fun a' ha' => List.mem_append_left _ ha'), hthis.2⟩

theorem ackInv_start (groupId idA idB : Int) : AckInv (System.start groupId idA idB) := by
  intro x
  refine ⟨⟨fun _ _ h => (by cases h), fun a ha => ?_, fun sm hsm => ?_, fun q m ms i hq => ?_⟩,
    fun d hd => (by cases hd), fun n m ms i _ hq => ?_, fun n m ms i _ hq => ?_, fun a ha => ?_⟩
  · cases x <;> cases ha
  · cases x <;> cases hsm
  · simp [System.start] at hq
  · simp [System.start] at hq
  · simp [System.start] at hq
  · cases x <;> cases ha

/-- The messages that side `x` no longer keeps for resending have been received
in full. -/
def DroppedReceived (s : System) (x : Bool) : Prop :=
  ∀ (q : Nat) (m : Message) (ms i : Nat), (s.sent x true)[q]? = some (m, ms) →
    (∀ sm ∈ (s.peer x).sendBuffer, sm.sequence ≠ q) → i < wireFrames m.data.data.length ms →
    ⟨q, i⟩ ∈ s.received !x

/-- Side `x` has stored every frame that it has acknowledged or is about to
acknowledge, or has completed its message. -/
def AcknowledgedStored (s : System) (x : Bool) : Prop :=
  (∀ a ∈ (s.peer x).sendAcks, Stored (s.peer x) a) ∧
    ∀ d ∈ s.net x, ∀ a ∈ acksOf d, Stored (s.peer x) a

/-- A message of one byte is sent, arrives and is acknowledged. -/
def oneByte : List Action :=
  [.sendMessage false ⟨54, { type := 4, data := [10] }, true, by decide⟩ (.control 150) true,
    .deliver true 0, .doSend true [] true, .deliver false 0, .doSend false [] true]

end Aoo.Net
