import Aoo.Lib.Chunks
import Aoo.Net.Safety

/-!
# Frames of a message

A frame can be cut in two ways: `send_message` divides the message by the
packet size, and `sent_message::get_frame` slices the stored copy again when a
frame is resent. `FrameOf` is what every such packet has in common: it carries a
slice of the content, and `add_frame` computes the place of that slice from the
frame index and the length of the slice alone.

The two cuts agree except for the last frame. `get_frame` makes it start one
frame early, which is harmless since the receiver puts it at the end of its
buffer. `send_message` gives it the remainder of the division, which is empty
when the size is a multiple of the frame size; then the end of the message is
never sent. `covered_all_iff` says exactly when the copies that the receiver puts
together cover the message.
-/

namespace Aoo.Net

open Lib

/-! ## Frame counts -/

/-- A packet has room for data. -/
theorem maxsize_pos (packetSize : PacketSize) (binary : Bool) : 0 < maxsize packetSize binary := by
  have := packetSize.ge
  cases binary <;> simp [maxsize, kBinMessageHeaderSize, kMessageHeaderSize,
    kAooBinMsgLargeHeaderSize] <;> omega

/-- The data of a packet are never larger than the largest packet. -/
theorem maxsize_le (packetSize : PacketSize) (binary : Bool) : maxsize packetSize binary ≤ 4096 := by
  have := packetSize.le
  unfold maxsize
  omega

/-- The frames are enough for the message. -/
theorem size_le_numFrames {size ms : Nat} (hms : 0 < ms) : size ≤ numFrames size ms * ms :=
  le_numChunks_mul hms

/-- All frames but the last are full. -/
theorem numFrames_mul_le {size ms i : Nat} (hi : i + 1 < numFrames size ms) :
    (i + 1) * ms ≤ size :=
  mul_le_of_lt_numChunks hi

/-- With several frames all but the last are full. -/
theorem frameSize_eq {size ms : Nat} (hn : 1 < numFrames size ms) : frameSize size ms = ms := by
  have hdiv : size / ms ≠ 0 := by
    unfold numFrames at hn
    split at hn <;> omega
  rw [frameSize, if_pos hdiv]

/-- The number of frames the receiver expects: a message without content still
takes one. -/
def wireFrames (size ms : Nat) : Nat := max 1 (numFrames size ms)

/-! ## What every packet of a message looks like -/

/-- Frame `i` of message `m` with sequence number `q`: the slice of `l` bytes from
`o` on, which the receiver can place. -/
structure FrameOf (m : Message) (ms q i o l : Nat) (p : MessagePacket) : Prop where
  type : p.type = m.data.type
  tt : p.tt = m.tt
  seq : p.sequence = q
  total : p.totalSize = m.data.data.length
  num : p.numFrames = numFrames m.data.data.length ms
  index : p.frameIndex = i
  index_lt : i < wireFrames m.data.data.length ms
  data : p.data = (m.data.data.drop o).take l
  inside : o + l ≤ m.data.data.length
  last : i + 1 = wireFrames m.data.data.length ms → o + l = m.data.data.length
  inner : i + 1 < wireFrames m.data.data.length ms → o = i * l
  single : numFrames m.data.data.length ms ≤ 1 → o = 0

/-- The length of a frame is that of its slice. -/
theorem FrameOf.data_length {m : Message} {ms q i o l : Nat} {p : MessagePacket}
    (h : FrameOf m ms q i o l p) : p.data.length = l := by
  have := h.inside
  rw [h.data, List.length_take, List.length_drop]
  omega

/-- Where `send_message` cuts. -/
def sentSlice (size ms i : Nat) : Nat × Nat :=
  if numFrames size ms > 1 then
    if i = numFrames size ms - 1 then (size - size % ms, size % ms) else (i * ms, ms)
  else (0, size)

/-- Where `get_frame` cuts. -/
def resentSlice (size ms i : Nat) : Nat × Nat :=
  if numFrames size ms > 1 then
    if i = numFrames size ms - 1 then ((i - 1) * ms, size - (i - 1) * ms) else (i * ms, ms)
  else (0, size)

/-- A first transmission carries a slice of the message. -/
theorem messagePacket_frameOf (m : Message) {ms : Nat} (q : Nat) {i : Nat}
    (hi : i < wireFrames m.data.data.length ms) :
    FrameOf m ms q i (sentSlice m.data.data.length ms i).1 (sentSlice m.data.data.length ms i).2
      (messagePacket m q ms i) := by
  have hmod := Nat.mod_le m.data.data.length ms
  refine ⟨rfl, rfl, rfl, rfl, rfl, rfl, hi, ?_, ?_, ?_, ?_, ?_⟩
  · simp only [messagePacket, sentSlice]
    split_ifs
    · rw [List.take_of_length_le (by rw [List.length_drop]; omega)]
    · rfl
    · simp
  · simp only [sentSlice]
    split_ifs with h1 h2
    · simp only
      omega
    · have := @numFrames_mul_le m.data.data.length ms i (by unfold wireFrames at hi; omega)
      simp only
      rw [Nat.add_mul, Nat.one_mul] at this
      exact this
    · simp
  · intro hlast
    simp only [sentSlice]
    unfold wireFrames at hlast
    split_ifs with h1 h2
    · simp only
      omega
    · omega
    · simp
  · intro hinner
    simp only [sentSlice]
    unfold wireFrames at hinner
    split_ifs with h1 h2
    · omega
    · rfl
    · omega
  · intro hsingle
    simp only [sentSlice]
    rw [if_neg (by omega)]

/-- The sent message that `send_message` stores. -/
def sentMessage (m : Message) (q ms : Nat) : SentMessage :=
  ⟨m.data, m.tt, q, numFrames m.data.data.length ms, frameSize m.data.data.length ms,
    Finset.range (numFrames m.data.data.length ms)⟩

/-- What is kept for resending is cut into slices as well. -/
theorem getFrame_eq {m : Message} {ms i : Nat} (q : Nat)
    (hi : i < numFrames m.data.data.length ms) :
    (sentMessage m q ms).getFrame i =
      (m.data.data.drop (resentSlice m.data.data.length ms i).1).take
        (resentSlice m.data.data.length ms i).2 := by
  have hnum : (sentMessage m q ms).numFrames = numFrames m.data.data.length ms := rfl
  have hsize : (sentMessage m q ms).frameSize = frameSize m.data.data.length ms := rfl
  have hdata : (sentMessage m q ms).data = m.data := rfl
  rw [SentMessage.getFrame, resentSlice, hnum, hsize, hdata]
  by_cases h1 : numFrames m.data.data.length ms = 1
  · rw [if_pos h1, if_neg (show ¬ numFrames m.data.data.length ms > 1 by omega)]
    simp
  · have h2 : numFrames m.data.data.length ms > 1 := by omega
    rw [if_neg h1, if_pos h2, frameSize_eq h2]
    by_cases h3 : i = numFrames m.data.data.length ms - 1
    · rw [if_pos h3, if_pos h3, List.take_of_length_le (by rw [List.length_drop])]
    · rw [if_neg h3, if_neg h3]

/-- So a resent packet carries a slice. -/
theorem resendPacket_frameOf {m : Message} {ms : Nat} (q : Nat) {i : Nat}
    (hi : i < numFrames m.data.data.length ms) :
    FrameOf m ms q i (resentSlice m.data.data.length ms i).1
      (resentSlice m.data.data.length ms i).2 (resendPacket (sentMessage m q ms) i) := by
  have hwire : wireFrames m.data.data.length ms = numFrames m.data.data.length ms := by
    unfold wireFrames
    omega
  refine ⟨rfl, rfl, rfl, rfl, rfl, rfl, by omega, getFrame_eq q hi, ?_, ?_, ?_, ?_⟩
  · simp only [resentSlice]
    split_ifs with h1 h2
    · have := @numFrames_mul_le m.data.data.length ms (i - 1) (by omega)
      rw [Nat.add_mul, Nat.one_mul] at this
      simp only
      omega
    · have := @numFrames_mul_le m.data.data.length ms i (by omega)
      rw [Nat.add_mul, Nat.one_mul] at this
      exact this
    · simp
  · intro hlast
    simp only [resentSlice]
    split_ifs with h1 h2
    · have := @numFrames_mul_le m.data.data.length ms (i - 1) (by omega)
      rw [Nat.add_mul, Nat.one_mul] at this
      simp only
      omega
    · omega
    · simp
  · intro hinner
    simp only [resentSlice]
    split_ifs with h1 h2
    · omega
    · rfl
    · omega
  · intro hsingle
    simp only [resentSlice]
    rw [if_neg (by omega)]

/-- There are no more frames than bytes. -/
theorem wireFrames_le {size ms : Nat} (hms : 0 < ms) : wireFrames size ms ≤ max 1 size := by
  have hle : numFrames size ms ≤ size := by
    have hdiv := Nat.div_add_mod size ms
    have hmul : size / ms ≤ ms * (size / ms) := Nat.le_mul_of_pos_left _ hms
    unfold numFrames
    split <;> omega
  unfold wireFrames
  omega

/-- A message of at most 256 frames fits an `int32_t`. -/
theorem size_lt_of_frames {size ms : Nat} (hms : 0 < ms ∧ ms ≤ 4096)
    (hn : numFrames size ms ≤ 256) : size < 2147483648 := by
  have hle := @size_le_numFrames size ms hms.1
  have hmul : numFrames size ms * ms ≤ 256 * 4096 := Nat.mul_le_mul hn hms.2
  omega

/-- The packets of a message can be written and read back. -/
theorem FrameOf.wire {m : Message} {ms q i o l : Nat} {p : MessagePacket}
    (h : FrameOf m ms q i o l p) (hms : 0 < ms) (hsize : m.data.data.length < 2147483648)
    (hq : q < 2147483648) : p.Wire := by
  have hi := h.index_lt
  have hwire := @wireFrames_le m.data.data.length ms hms
  have hn : numFrames m.data.data.length ms ≤ wireFrames m.data.data.length ms := by
    unfold wireFrames
    omega
  refine ⟨?_, ?_, ?_, ?_, ?_, ?_, ?_⟩
  · rw [h.type]
    exact ⟨m.data.type_ge, m.data.type_lt⟩
  · rw [h.tt]
    exact m.tt_lt
  · rw [h.seq]
    omega
  · rw [h.total]
    omega
  · rw [h.num]
    omega
  · rw [h.index]
    omega
  · intro hsingle
    rw [h.num] at hsingle
    have hle : numFrames m.data.data.length ms ≤ 1 := by omega
    have h0 := h.single hle
    have hlast := h.last (by unfold wireFrames at hi ⊢; omega)
    rw [h.total, h.data_length]
    omega

/-! ## What the receiver makes of it -/

/-- The receiver reads the number of frames. -/
theorem FrameOf.received_num {m : Message} {ms q i o l : Nat} {p : MessagePacket}
    (h : FrameOf m ms q i o l p) :
    p.received.numFrames = wireFrames m.data.data.length ms := by
  have hnum := h.num
  rw [MessagePacket.received]
  split <;> simp only [wireFrames] <;> omega

/-- The receiver reads the index of the frame. -/
theorem FrameOf.received_index {m : Message} {ms q i o l : Nat} {p : MessagePacket}
    (h : FrameOf m ms q i o l p) : p.received.frameIndex = i := by
  have hnum := h.num
  have hlt := h.index_lt
  rw [MessagePacket.received]
  split
  next => exact h.index
  next => simp only [wireFrames] at *; omega

/-- The rest of the packet arrives as it is. -/
theorem received_eq (p : MessagePacket) :
    p.received.type = p.type ∧ p.received.tt = p.tt ∧ p.received.sequence = p.sequence ∧
      p.received.totalSize = p.totalSize ∧ p.received.data = p.data ∧
      p.received.reliable = p.reliable := by
  rw [MessagePacket.received]
  split <;> exact ⟨rfl, rfl, rfl, rfl, rfl, rfl⟩

/-- A message at the receiver whose header is that of `m`. -/
structure HeaderOf (m : Message) (ms : Nat) (r : ReceivedMessage) : Prop where
  tt : r.tt = m.tt
  type : r.type = m.data.type
  size : r.size = m.data.data.length
  num : r.numFrames = wireFrames m.data.data.length ms

/-- The receiver copies a frame to the place of its slice. -/
theorem FrameOf.frameOnset {m : Message} {ms q i o l : Nat} {p : MessagePacket}
    {r : ReceivedMessage} (h : FrameOf m ms q i o l p) (hr : HeaderOf m ms r) :
    r.frameOnset i l = o := by
  have hlt := h.index_lt
  rw [ReceivedMessage.frameOnset, hr.num, hr.size]
  split
  next he =>
    have := h.last (by omega)
    omega
  next hne =>
    have := h.inner (by omega)
    rw [this]
    push_cast
    rfl

/-- A frame of the message lies inside the message. -/
theorem FrameOf.frameInside {m : Message} {ms q i o l : Nat} {p : MessagePacket}
    (h : FrameOf m ms q i o l p) (hn : numFrames m.data.data.length ms ≤ 256) :
    FrameInside m.data.data.length (wireFrames m.data.data.length ms) i l := by
  have hlt := h.index_lt
  have hin := h.inside
  refine ⟨⟨by omega, ?_⟩, Or.inr ?_⟩
  · unfold wireFrames at hlt
    omega
  · split
    next => omega
    next hne =>
      have := h.inner (by omega)
      have hexp : ((i : Int) + 1) * l = (i * l : Nat) + l := by
        push_cast
        ring
      rw [hexp, ← this]
      exact_mod_cast hin

/-- So it can be added to a message with the right header and buffer. -/
theorem FrameOf.fits {m : Message} {ms q i o l : Nat} {p : MessagePacket} {r : ReceivedMessage}
    {b : List (Option UInt8)} (h : FrameOf m ms q i o l p)
    (hn : numFrames m.data.data.length ms ≤ 256) (hr : HeaderOf m ms r) (hb : r.data = some b)
    (hlen : b.length = m.data.data.length) : r.FrameFits i p.data.length := by
  have hin := h.inside
  refine ⟨?_, (h.frameInside hn).1⟩
  rw [hb, copyFits_some, h.data_length, h.frameOnset hr]
  exact Or.inr ⟨by omega, by omega⟩

/-! ## Reassembly -/

/-- A copy of a frame that arrives: is it a resent one, and which frame is it? -/
abbrev Arrival := Bool × Nat

/-- The packet that was sent for an arrival. -/
def arrivalFrame (m : Message) (q ms : Nat) (a : Arrival) : MessagePacket :=
  if a.1 then resendPacket (sentMessage m q ms) a.2 else messagePacket m q ms a.2

/-- What the receiver reads of it. -/
def arrivalPacket (m : Message) (q ms : Nat) (binary : Bool) (a : Arrival) :
    Option MessagePacket :=
  (arrivalFrame m q ms a).parsed binary

/-- The slice it carries. -/
def arrivalSlice (size ms : Nat) (a : Arrival) : Nat × Nat :=
  if a.1 then resentSlice size ms a.2 else sentSlice size ms a.2

/-- The later frames of a message: a reliable message ignores the frames it has,
an unreliable one takes every copy. -/
def addLaterFrame (reliable : Bool) (r : ReceivedMessage) (p : MessagePacket) :
    Except Fault ReceivedMessage :=
  if reliable then addMissingFrame r p else r.addFrame p.frameIndex p.data

/-- The message that the receiver builds from packets of one sequence number. -/
def reassemble (reliable : Bool) : List MessagePacket → Except Fault ReceivedMessage
  | [] => .ok {}
  | p :: rest =>
    match addNewMessage p with
    | .error e => .error e
    | .ok (r, _) => run (addLaterFrame reliable) r rest

/-- The positions that the first copy of each frame fills. -/
def Covered (size ms : Nat) (seen : List Arrival) (j : Nat) : Prop :=
  ∃ a, seen.find? (fun c => c.2 == a.2) = some a ∧
    (arrivalSlice size ms a).1 ≤ j ∧ j < (arrivalSlice size ms a).1 + (arrivalSlice size ms a).2

/-- The message after the copies `seen` have arrived. -/
structure Rebuilt (m : Message) (ms : Nat) (seen : List Arrival) (r : ReceivedMessage) : Prop where
  header : HeaderOf m ms r
  frames : ∀ i, i ∈ r.frames ↔ i < wireFrames m.data.data.length ms ∧ ∀ c ∈ seen, c.2 ≠ i
  data : ∃ b, r.data = some b ∧ Filled m.data.data (Covered m.data.data.length ms seen) b

/-- Whatever arrives is a frame of the message. -/
theorem arrivalFrame_frameOf {m : Message} {ms : Nat} (q : Nat) {a : Arrival}
    (hi : a.2 < wireFrames m.data.data.length ms)
    (hres : a.1 = true → a.2 < numFrames m.data.data.length ms) :
    FrameOf m ms q a.2 (arrivalSlice m.data.data.length ms a).1
      (arrivalSlice m.data.data.length ms a).2 (arrivalFrame m q ms a) := by
  rw [arrivalFrame, arrivalSlice]
  split
  next h => exact resendPacket_frameOf q (hres h)
  next => exact messagePacket_frameOf m q hi

/-- A second arrival of a frame is ignored. -/
theorem find?_append_of_seen {seen : List Arrival} {a : Arrival} (h : ∃ c ∈ seen, c.2 = a.2)
    (i : Nat) : (seen ++ [a]).find? (fun c => c.2 == i) = seen.find? (fun c => c.2 == i) := by
  rw [List.find?_append]
  cases hf : seen.find? (fun c => c.2 == i) with
  | some c => rfl
  | none =>
    obtain ⟨c, hc, he⟩ := h
    have hne : ¬ c.2 = i := by simpa using List.find?_eq_none.mp hf c hc
    simp only [Option.none_or, List.find?_singleton]
    rw [if_neg (by simpa [← he] using hne)]

/-- The first one counts. -/
theorem find?_append_of_unseen {seen : List Arrival} {a : Arrival} (h : ∀ c ∈ seen, c.2 ≠ a.2)
    (i : Nat) : (seen ++ [a]).find? (fun c => c.2 == i) =
      if a.2 = i then some a else seen.find? (fun c => c.2 == i) := by
  rw [List.find?_append]
  split
  next he =>
    have hnone : seen.find? (fun c => c.2 == i) = none := by
      rw [List.find?_eq_none]
      intro c hc
      have := h c hc
      simp only [beq_iff_eq]
      omega
    simp [hnone, he]
  next hne =>
    have : [a].find? (fun c => c.2 == i) = none := by
      simp [hne]
    rw [this, Option.or_none]

/-- A first copy adds its slice. -/
theorem covered_append_of_unseen {size ms : Nat} {seen : List Arrival} {a : Arrival}
    (h : ∀ c ∈ seen, c.2 ≠ a.2) (j : Nat) :
    Covered size ms (seen ++ [a]) j ↔ Covered size ms seen j ∨
      ((arrivalSlice size ms a).1 ≤ j ∧
        j < (arrivalSlice size ms a).1 + (arrivalSlice size ms a).2) := by
  constructor
  · rintro ⟨c, hf, hj⟩
    rw [find?_append_of_unseen h] at hf
    split at hf
    next =>
      cases hf
      exact Or.inr hj
    next => exact Or.inl ⟨c, hf, hj⟩
  · rintro (⟨c, hf, hj⟩ | hj)
    · refine ⟨c, ?_, hj⟩
      have hmem := List.mem_of_find?_eq_some hf
      rw [find?_append_of_unseen h, if_neg (fun he => h c hmem he.symm)]
      exact hf
    · exact ⟨a, by rw [find?_append_of_unseen h, if_pos rfl], hj⟩

/-- Later copies add nothing. -/
theorem covered_append_of_seen {size ms : Nat} {seen : List Arrival} {a : Arrival}
    (h : ∃ c ∈ seen, c.2 = a.2) (j : Nat) :
    Covered size ms (seen ++ [a]) j ↔ Covered size ms seen j := by
  simp only [Covered, find?_append_of_seen h]

/-- If no frame has been resent, every copy of a frame has the same slice. -/
theorem slice_covered {size ms : Nat} {seen : List Arrival} {a : Arrival}
    (horig : ∀ c ∈ seen ++ [a], c.1 = false) (h : ∃ c ∈ seen, c.2 = a.2) {j : Nat}
    (hj : (arrivalSlice size ms a).1 ≤ j ∧
      j < (arrivalSlice size ms a).1 + (arrivalSlice size ms a).2) :
    Covered size ms seen j := by
  obtain ⟨c, hc, he⟩ := h
  cases hf : seen.find? (fun d => d.2 == a.2) with
  | none => exact absurd (by simpa using he) (List.find?_eq_none.mp hf c hc)
  | some d =>
    have hd2 : d.2 = a.2 := by simpa using List.find?_some hf
    have hd1 : d.1 = false := horig d (List.mem_append_left _ (List.mem_of_find?_eq_some hf))
    have ha1 : a.1 = false := horig a (List.mem_append_right _ (List.mem_singleton_self a))
    have hda : d = a := Prod.ext (hd1.trans ha1.symm) hd2
    exact ⟨a, by rw [hf, hda], hj⟩

/-- What `add_frame` does with a frame that is new, or that is a further copy of
a frame that was never resent. -/
theorem withFrame_rebuilt {m : Message} {ms q : Nat} {seen : List Arrival} {a : Arrival}
    {r : ReceivedMessage} {p : MessagePacket}
    (hf : FrameOf m ms q a.2 (arrivalSlice m.data.data.length ms a).1
      (arrivalSlice m.data.data.length ms a).2 p)
    (hcopy : (∃ c ∈ seen, c.2 = a.2) → ∀ c ∈ seen ++ [a], c.1 = false)
    (h : Rebuilt m ms seen r) : Rebuilt m ms (seen ++ [a]) (r.withFrame a.2 p.data) := by
  obtain ⟨b, hb, hfill⟩ := h.data
  refine ⟨⟨h.header.tt, h.header.type, h.header.size, h.header.num⟩, ?_, ?_⟩
  · intro i
    simp only [ReceivedMessage.withFrame, Finset.mem_erase, h.frames, Int.toNat_natCast,
      List.mem_append, List.mem_singleton, or_imp, forall_and, forall_eq]
    constructor
    · rintro ⟨h1, h2, h3⟩
      exact ⟨h2, h3, fun he => h1 he.symm⟩
    · rintro ⟨h1, h2, h3⟩
      exact ⟨fun he => h3 he.symm, h1, h2⟩
  · refine ⟨writeAt b (r.frameOnset a.2 p.data.length).toNat (p.data.map some),
      by simp only [ReceivedMessage.withFrame, hb, copyTo, Option.map_some], ?_⟩
    rw [hf.data_length, hf.frameOnset h.header, Int.toNat_natCast, hf.data]
    have hcov : Covered m.data.data.length ms (seen ++ [a]) = fun j =>
        Covered m.data.data.length ms seen j ∨
          ((arrivalSlice m.data.data.length ms a).1 ≤ j ∧
            j < (arrivalSlice m.data.data.length ms a).1 +
              (arrivalSlice m.data.data.length ms a).2) := by
      funext j
      refine propext ?_
      by_cases hseen : ∃ c ∈ seen, c.2 = a.2
      · rw [covered_append_of_seen hseen, iff_self_or]
        exact fun hj => slice_covered (hcopy hseen) hseen hj
      · exact covered_append_of_unseen (fun c hc he => hseen ⟨c, hc, he⟩) j
    rw [hcov]
    exact hfill.writeAt hf.inside

/-- A further copy of a frame changes nothing in the picture. -/
theorem Rebuilt.append_of_seen {m : Message} {ms : Nat} {seen : List Arrival} {a : Arrival}
    {r : ReceivedMessage} (hseen : ∃ c ∈ seen, c.2 = a.2) (h : Rebuilt m ms seen r) :
    Rebuilt m ms (seen ++ [a]) r := by
  obtain ⟨b, hb, hfill⟩ := h.data
  refine ⟨h.header, ?_, b, hb, ?_⟩
  · intro i
    rw [h.frames]
    refine and_congr_right fun _ => ⟨fun hne c hc => ?_, fun hne c hc => ?_⟩
    · rcases List.mem_append.mp hc with hc | hc
      · exact hne c hc
      · obtain ⟨d, hd, he⟩ := hseen
        rw [List.mem_singleton.mp hc, ← he]
        exact hne d hd
    · exact hne c (List.mem_append_left _ hc)
  · have hcov : Covered m.data.data.length ms (seen ++ [a]) =
        Covered m.data.data.length ms seen :=
      funext fun j => propext (covered_append_of_seen hseen j)
    rw [hcov]
    exact hfill

/-- What can arrive of a message: its frames, resent ones only if it is
reliable. -/
structure Arrives (m : Message) (ms : Nat) (a : Arrival) : Prop where
  index : a.2 < wireFrames m.data.data.length ms
  resent : a.1 = true → m.reliable = true ∧ a.2 < numFrames m.data.data.length ms

/-- **One more copy.** Adding an arrival never faults and keeps the picture. -/
theorem addLaterFrame_rebuilt {m : Message} {ms : Nat} (q : Nat) {seen : List Arrival}
    {a : Arrival} {r : ReceivedMessage} (hn : numFrames m.data.data.length ms ≤ 256)
    (hseen : ∀ c ∈ seen, Arrives m ms c) (ha : Arrives m ms a) (h : Rebuilt m ms seen r) :
    ∃ r', addLaterFrame m.reliable r (arrivalFrame m q ms a).received = .ok r' ∧
      Rebuilt m ms (seen ++ [a]) r' := by
  have hf := arrivalFrame_frameOf q ha.index (fun h1 => (ha.resent h1).2)
  generalize arrivalFrame m q ms a = p at hf ⊢
  obtain ⟨b, hb, hfill⟩ := h.data
  have hdata : p.received.data = p.data := (received_eq p).2.2.2.2.1
  have hfits := hf.fits hn h.header hb hfill.length
  have hadd : r.addFrame a.2 p.data = .ok (r.withFrame a.2 p.data) :=
    ReceivedMessage.addFrame_eq hfits
  rw [addLaterFrame]
  cases hrel : m.reliable with
  | false =>
    have horig : ∀ c ∈ seen ++ [a], c.1 = false := by
      intro c hc
      have hc' : Arrives m ms c := by
        rcases List.mem_append.mp hc with hc | hc
        · exact hseen c hc
        · rw [List.mem_singleton.mp hc]
          exact ha
      cases h1 : c.1 with
      | false => rfl
      | true =>
        have := (hc'.resent h1).1
        rw [hrel] at this
        cases this
    refine ⟨_, ?_, withFrame_rebuilt hf (fun _ => horig) h⟩
    rw [if_neg (by decide), hf.received_index, hdata]
    exact hadd
  | true =>
    rw [if_pos rfl, addMissingFrame, hf.received_index, ReceivedMessage.hasFrame_eq hfits.2]
    by_cases hcopy : ∃ c ∈ seen, c.2 = a.2
    · have hnot : a.2 ∉ r.frames := by
        rw [h.frames]
        rintro ⟨-, hne⟩
        obtain ⟨c, hc, he⟩ := hcopy
        exact hne c hc he
      simp only [Int.toNat_natCast, hnot, not_false_eq_true, decide_true]
      exact ⟨r, rfl, h.append_of_seen hcopy⟩
    · have hmem : a.2 ∈ r.frames := by
        rw [h.frames]
        exact ⟨ha.index, fun c hc he => hcopy ⟨c, hc, he⟩⟩
      simp only [Int.toNat_natCast, hmem, not_true_eq_false, decide_false, hdata]
      exact ⟨_, hadd, withFrame_rebuilt hf (fun hc => absurd hc hcopy) h⟩

/-- A message after `init` from one of its packets. -/
theorem initialised_rebuilt {m : Message} {ms q i o l : Nat} {p : MessagePacket}
    (hf : FrameOf m ms q i o l p) (seq : Int) :
    Rebuilt m ms [] (({ sequence := seq } : ReceivedMessage).initialised p.received.type
      p.received.tt p.received.numFrames p.received.totalSize
      (List.replicate p.received.totalSize.toNat none)) := by
  obtain ⟨htype, htt, -, htotal, -, -⟩ := received_eq p
  rw [htype, htt, htotal, hf.received_num, hf.type, hf.tt, hf.total, Int.toNat_natCast]
  refine ⟨⟨rfl, rfl, rfl, rfl⟩, ?_, _, rfl, ?_⟩
  · intro i
    simp [ReceivedMessage.initialised]
  · have hcov : Covered m.data.data.length ms [] = fun _ => False := by
      funext j
      simp [Covered]
    rw [hcov]
    exact filled_replicate m.data.data

/-- The first copy sets up the message. -/
theorem addNewMessage_rebuilt {m : Message} {ms : Nat} (q : Nat) {a : Arrival}
    (hn : numFrames m.data.data.length ms ≤ 256) (ha : Arrives m ms a) :
    ∃ r, addNewMessage (arrivalFrame m q ms a).received = .ok (r, true) ∧ Rebuilt m ms [a] r := by
  have hf := arrivalFrame_frameOf q ha.index (fun h1 => (ha.resent h1).2)
  generalize arrivalFrame m q ms a = p at hf ⊢
  obtain ⟨-, -, -, htotal, hdata, -⟩ := received_eq p
  have hsize : 0 ≤ p.received.totalSize := by
    rw [htotal, hf.total]
    omega
  have hnum : p.received.numFrames ≤ 256 := by
    rw [hf.received_num, wireFrames]
    omega
  have hr := initialised_rebuilt hf p.received.sequence
  obtain ⟨b, hb, hfill⟩ := hr.data
  refine ⟨_, ?_, withFrame_rebuilt hf (fun ⟨c, hc, _⟩ => by cases hc) hr⟩
  rw [addNewMessage, ReceivedMessage.init_eq _ _ _ hsize hnum]
  simp only [hf.received_index, hdata,
    ReceivedMessage.addFrame_eq (hf.fits hn hr.header hb hfill.length)]

/-- Frames are put together in any order of arrival. -/
theorem run_addLaterFrame_rebuilt {m : Message} {ms : Nat} (q : Nat) {seen : List Arrival}
    {arrivals : List Arrival} {r : ReceivedMessage} (hn : numFrames m.data.data.length ms ≤ 256)
    (hseen : ∀ c ∈ seen, Arrives m ms c) (harr : ∀ c ∈ arrivals, Arrives m ms c)
    (h : Rebuilt m ms seen r) :
    ∃ r', run (addLaterFrame m.reliable) r
        (arrivals.map fun a => (arrivalFrame m q ms a).received) = .ok r' ∧
      Rebuilt m ms (seen ++ arrivals) r' := by
  induction arrivals generalizing seen r with
  | nil => exact ⟨r, rfl, by rw [List.append_nil]; exact h⟩
  | cons a arrivals ih =>
    have ha := harr a (List.mem_cons_self ..)
    obtain ⟨r₁, hr₁, h₁⟩ := addLaterFrame_rebuilt q hn hseen ha h
    have hseen₁ : ∀ c ∈ seen ++ [a], Arrives m ms c := by
      intro c hc
      rcases List.mem_append.mp hc with hc | hc
      · exact hseen c hc
      · rw [List.mem_singleton.mp hc]
        exact ha
    obtain ⟨r', hr', h'⟩ := ih hseen₁ (fun c hc => harr c (List.mem_cons_of_mem _ hc)) h₁
    refine ⟨r', ?_, ?_⟩
    · rw [List.map_cons, run, hr₁]
      exact hr'
    · rw [List.append_assoc] at h'
      exact h'

/-- A single frame is the whole message. -/
theorem arrivalSlice_single {size ms : Nat} (hn : numFrames size ms ≤ 1) (a : Arrival) :
    arrivalSlice size ms a = (0, size) := by
  rw [arrivalSlice, resentSlice, sentSlice, if_neg (show ¬ numFrames size ms > 1 by omega),
    if_neg (show ¬ numFrames size ms > 1 by omega), ite_self]

/-- Inner frames are the same whether sent or resent. -/
theorem arrivalSlice_inner {size ms : Nat} (hn : 1 < numFrames size ms) {a : Arrival}
    (ha : a.2 ≠ numFrames size ms - 1) : arrivalSlice size ms a = (a.2 * ms, ms) := by
  rw [arrivalSlice, resentSlice, sentSlice, if_pos hn, if_pos hn, if_neg ha, if_neg ha, ite_self]

/-- The last frame is not: resent, it begins one frame earlier. -/
theorem arrivalSlice_last {size ms : Nat} (hn : 1 < numFrames size ms) (resent : Bool) :
    arrivalSlice size ms (resent, numFrames size ms - 1) =
      if resent then ((numFrames size ms - 2) * ms, size - (numFrames size ms - 2) * ms)
      else (size - size % ms, size % ms) := by
  rw [arrivalSlice, resentSlice, sentSlice, if_pos hn, if_pos hn, if_pos rfl, if_pos rfl]
  rfl

/-- When every position is covered: the message has one frame, or its last frame
is not cut empty, or the copy of the last frame that comes first is a resent
one. -/
theorem covered_all_iff {size ms : Nat} {arrivals : List Arrival} (hms : 0 < ms)
    (hall : ∀ i < wireFrames size ms, ∃ a ∈ arrivals, a.2 = i) :
    (∀ j < size, Covered size ms arrivals j) ↔
      numFrames size ms ≤ 1 ∨ size % ms ≠ 0 ∨
        arrivals.find? (fun a => a.2 == numFrames size ms - 1) =
          some (true, numFrames size ms - 1) := by
  have hfirst : ∀ i < wireFrames size ms,
      ∃ r, arrivals.find? (fun a => a.2 == i) = some (r, i) := by
    intro i hi
    obtain ⟨a, ha, he⟩ := hall i hi
    cases hf : arrivals.find? (fun a => a.2 == i) with
    | none => exact absurd (by simpa using he) (List.find?_eq_none.mp hf a ha)
    | some c =>
      have hc : c.2 = i := by simpa using List.find?_some hf
      exact ⟨c.1, by rw [← hc]⟩
  by_cases hn : numFrames size ms ≤ 1
  · refine ⟨fun _ => Or.inl hn, fun _ j hj => ?_⟩
    obtain ⟨r, hf⟩ := hfirst 0 (by unfold wireFrames; omega)
    refine ⟨(r, 0), hf, ?_⟩
    rw [arrivalSlice_single hn]
    omega
  · have hwire : wireFrames size ms = numFrames size ms := by
      unfold wireFrames
      omega
    have hdiv := Nat.div_add_mod size ms
    obtain ⟨r, hlast⟩ := hfirst (numFrames size ms - 1) (by omega)
    rw [or_iff_right hn, hlast]
    constructor
    · -- a last frame that is cut empty leaves the last byte uncovered
      intro hcov
      by_contra hno
      obtain ⟨hrem, hr⟩ := not_or.mp hno
      have hrem : size % ms = 0 := not_not.mp hrem
      have hr : r = false := by
        cases r
        · rfl
        · exact absurd rfl hr
      have hnum : numFrames size ms = size / ms := by
        rw [numFrames, hrem]
        rfl
      have hsize : size = (numFrames size ms - 1) * ms + ms := by
        have hmul : (numFrames size ms - 1) * ms + ms = numFrames size ms * ms := by
          rw [← Nat.succ_mul, Nat.succ_eq_add_one, Nat.sub_add_cancel (by omega)]
        rw [hmul, hnum, Nat.mul_comm]
        omega
      obtain ⟨a, hf, hlo, hhi⟩ := hcov (size - 1) (by omega)
      by_cases ha : a.2 = numFrames size ms - 1
      · rw [ha, hlast] at hf
        cases hf
        rw [arrivalSlice_last (by omega), hr] at hlo
        simp only [Bool.false_eq_true, if_false, hrem] at hlo
        omega
      · rw [arrivalSlice_inner (by omega) ha] at hhi
        have hlt : a.2 < numFrames size ms - 1 := by
          by_contra hge
          rw [arrivalSlice_inner (by omega) ha] at hlo
          have hmul : numFrames size ms * ms ≤ a.2 * ms := Nat.mul_le_mul_right ms (by omega)
          have hle := @size_le_numFrames size ms hms
          simp only at hlo
          omega
        have hmul : (a.2 + 1) * ms ≤ (numFrames size ms - 1) * ms :=
          Nat.mul_le_mul_right ms (by omega)
        rw [Nat.add_mul, Nat.one_mul] at hmul
        simp only at hhi
        omega
    · intro hcond j hj
      by_cases hinner : j / ms < numFrames size ms - 1
      · -- a full frame
        obtain ⟨c, hf⟩ := hfirst (j / ms) (by omega)
        refine ⟨(c, j / ms), hf, ?_⟩
        rw [arrivalSlice_inner (by omega) (by simp only; omega)]
        have hj1 := Nat.div_add_mod j ms
        have hj2 := Nat.mod_lt j hms
        rw [Nat.mul_comm] at hj1
        simp only
        omega
      · have hge : (numFrames size ms - 1) * ms ≤ j := by
          have hmul : (numFrames size ms - 1) * ms ≤ j / ms * ms :=
            Nat.mul_le_mul_right ms (by omega)
          have := Nat.div_mul_le_self j ms
          omega
        refine ⟨(r, numFrames size ms - 1), hlast, ?_⟩
        rw [arrivalSlice_last (by omega)]
        cases r with
        | true =>
          have hmul : (numFrames size ms - 2) * ms ≤ (numFrames size ms - 1) * ms :=
            Nat.mul_le_mul_right ms (by omega)
          simp only [if_true]
          omega
        | false =>
          have hrem : size % ms ≠ 0 := hcond.resolve_right (by simp)
          have hnum : numFrames size ms - 1 = size / ms := by
            rw [numFrames, if_pos hrem, Nat.add_sub_cancel]
          have honset : size - size % ms = (numFrames size ms - 1) * ms := by
            rw [hnum, Nat.mul_comm]
            omega
          simp only [Bool.false_eq_true, if_false]
          omega

end Aoo.Net
