import Aoo.Stream.Messages
import Aoo.Stream.Sink

/-!
# The message area of a block

`try_decode_block` takes a complete block apart. The bytes up to `message_size` are messages:
their number, and for each of them eight bytes of header and the data, padded to four bytes. The
decoder gets the rest. All numbers come from the sender, and nobody has compared `message_size`
with `total_size` before.

`Stream.Messages` has the loop over a list of bytes, which ends where the list does. A pointer does
not: here the loop reads memory, and every read is written down.

**Main result** (`inside_iff`): the block is not left, by the loop and by the decoder,
exactly if the sizes fit together and no record starts so close to the end of the
messages that its header sticks out. The loop compares the data of a record with the
end, but not the header.
-/

namespace Aoo.Stream

open Lib

/-! ## The code -/

/-- `size` bytes of memory from `data + start`. -/
def bytesAt (mem : Nat → UInt8) (start size : Nat) : List UInt8 :=
  (List.range' start size).map mem

/-- A read of `size` bytes from `data + start`. -/
structure Access where
  start : Nat
  size : Nat
  deriving DecidableEq, Repr

/-- The size in the header of the record at `data + msgptr`. -/
def recordSize (mem : Nat → UInt8) (msgptr : Nat) : Nat := field 2 (bytesAt mem (msgptr + 6) 2)

/-- The loop over the messages: what it reads, and the entries that it schedules. -/
def readRecords (mem : Nat → UInt8) (k : DecodeTiming) (endptr : Nat) :
    Nat → Nat → List Access × List StreamEntry
  | 0, _ => ([], [])
  | n + 1, msgptr =>
    let offset := field 2 (bytesAt mem msgptr 2)
    let channel := field 2 (bytesAt mem (msgptr + 2) 2)
    let type := field 2 (bytesAt mem (msgptr + 4) 2)
    let size := recordSize mem msgptr
    let header : List Access := [⟨msgptr, 2⟩, ⟨msgptr + 2, 2⟩, ⟨msgptr + 4, 2⟩, ⟨msgptr + 6, 2⟩]
    let msgptr := msgptr + 8
    let alignedSize := pad4 size
    if (endptr - msgptr : Int) < alignedSize then (header, [])
    else
      let (reads, entries) := readRecords mem k endptr n (msgptr + alignedSize)
      (header ++ ⟨msgptr, size⟩ :: reads,
        ⟨k.streamSamples + offset * k.resample, signed 65536 channel, signed 65536 type, size,
          .message (bytesAt mem msgptr size)⟩ :: entries)

/-- What `try_decode_block` does with the first block: the arguments of the decoder, `data`
relative to the block, and what is read and scheduled for the messages. -/
structure Decoding where
  data : Int
  size : Int
  reads : List Access
  entries : List StreamEntry

/-- The messages of a block: their number, and the loop. -/
def readMessageArea (mem : Nat → UInt8) (k : DecodeTiming) (msgsize : Int) :
    List Access × List StreamEntry :=
  if msgsize > 0 then
    let numMessages := int32Field (bytesAt mem 0 4)
    let loop := readRecords mem k msgsize.toNat numMessages.toNat 4
    (⟨0, 4⟩ :: loop.1, loop.2)
  else ([], [])

/-- `try_decode_block`, from the first block on; `mem` is what lies at `data` and behind. -/
def decodeBlock (b : ReceivedBlock) (mem : Nat → UInt8) (k : DecodeTiming) : Decoding :=
  let size := if b.complete then b.totalSize else 0
  let msgsize := if size > 0 then b.messageSize else 0
  let streamTime : List StreamEntry :=
    if b.tt > 0 then
      [⟨k.streamSamples + k.codecDelay, 0, kAooDataStreamTime, 8, .streamTime b.tt⟩]
    else []
  let messages := readMessageArea mem k msgsize
  ⟨msgsize, size - msgsize, messages.1, streamTime ++ messages.2⟩

/-- The loop keeps to the messages and to the block, and the decoder gets a part of the
block. -/
structure Decoding.Inside (r : Decoding) (b : ReceivedBlock) : Prop where
  reads : ∀ a ∈ r.reads, (a.start + a.size : Int) ≤ min b.messageSize b.totalSize
  size : 0 ≤ r.size
  pointer : 0 ≤ r.data ∧ r.data ≤ b.totalSize

/-! ## The records -/

/-- Where the record behind the one at `msgptr` starts. -/
def nextRecord (mem : Nat → UInt8) (msgptr : Nat) : Nat :=
  msgptr + 8 + pad4 (recordSize mem msgptr)

/-- Where record `i` starts. -/
def recordStart (mem : Nat → UInt8) (i : Nat) : Nat := (nextRecord mem)^[i] 4

/-- The sizes of a block fit together, and the header of every record does with the
message area. -/
structure WellSized (b : ReceivedBlock) (mem : Nat → UInt8) : Prop where
  total : 0 ≤ b.totalSize
  message : 0 < b.totalSize → 0 ≤ b.messageSize ∧ b.messageSize ≤ b.totalSize
  count : 0 < b.totalSize → 0 < b.messageSize → 4 ≤ b.messageSize
  headers : 0 < b.totalSize → 0 < b.messageSize → ∀ i : Nat,
    i < int32Field (bytesAt mem 0 4) → (recordStart mem i : Int) ≤ b.messageSize →
      (recordStart mem i + 8 : Int) ≤ b.messageSize

theorem le_iterate_nextRecord (mem : Nat → UInt8) (i : Nat) :
    ∀ p, p ≤ (nextRecord mem)^[i] p := by
  induction i with
  | zero => exact fun p => Nat.le_refl p
  | succ i ih =>
    intro p
    rw [Function.iterate_succ_apply]
    exact Nat.le_trans (Nat.le_trans (Nat.le_add_right p 8) (Nat.le_add_right _ _)) (ih _)

/-- The reads of the loop stay below the end exactly if the headers do. -/
theorem readRecords_inside_iff (mem : Nat → UInt8) (k : DecodeTiming) {endptr : Nat} (n : Nat) :
    ∀ p ≤ endptr, (∀ a ∈ (readRecords mem k endptr n p).1, a.start + a.size ≤ endptr) ↔
      ∀ i < n, (nextRecord mem)^[i] p ≤ endptr → (nextRecord mem)^[i] p + 8 ≤ endptr := by
  induction n with
  | zero =>
    intro p hp
    refine ⟨fun _ i hi => absurd hi (Nat.not_lt_zero i), fun _ a ha => ?_⟩
    cases ha
  | succ n ih =>
    intro p hp
    have hnext : nextRecord mem p = p + 8 + pad4 (recordSize mem p) := rfl
    have hpad : recordSize mem p ≤ pad4 (recordSize mem p) := by
      unfold pad4
      omega
    rw [readRecords]
    split
    next hbreak =>
      -- behind the end, there is no other record
      constructor
      · intro h i hi hle
        have hhead := h ⟨p + 6, 2⟩ (by simp)
        cases i with
        | zero => exact hhead
        | succ i =>
          rw [Function.iterate_succ_apply] at hle
          have hmono := le_iterate_nextRecord mem i (nextRecord mem p)
          omega
      · intro h a ha
        have hhead : p + 8 ≤ endptr := h 0 (Nat.succ_pos n) hp
        simp only [List.mem_cons, List.not_mem_nil, or_false] at ha
        obtain rfl | rfl | rfl | rfl := ha <;> dsimp only <;> omega
    next hfits =>
      have hle : nextRecord mem p ≤ endptr := by omega
      have hrest := ih (nextRecord mem p) hle
      constructor
      · intro h i hi
        cases i with
        | zero =>
          intro _
          show p + 8 ≤ endptr
          omega
        | succ i =>
          rw [Function.iterate_succ_apply]
          refine hrest.mp (fun a ha => h a ?_) i (Nat.lt_of_succ_lt_succ hi)
          exact List.mem_append_right _ (List.mem_cons_of_mem _ ha)
      · intro h a ha
        rcases List.mem_append.mp ha with ha | ha
        · simp only [List.mem_cons, List.not_mem_nil, or_false] at ha
          obtain rfl | rfl | rfl | rfl := ha <;> dsimp only <;> omega
        · rcases List.mem_cons.mp ha with rfl | ha
          · dsimp only
            omega
          · refine hrest.mpr (fun i hi => ?_) a ha
            have := h (i + 1) (Nat.succ_lt_succ hi)
            rwa [Function.iterate_succ_apply] at this

/-! ## The block -/

variable {b : ReceivedBlock}

/-- `msgsize` for a complete block. -/
def ReceivedBlock.msgsize (b : ReceivedBlock) : Int := if b.totalSize > 0 then b.messageSize else 0

theorem decodeBlock_eq (hb : b.complete = true) (mem : Nat → UInt8) (k : DecodeTiming) :
    (decodeBlock b mem k).reads = (readMessageArea mem k b.msgsize).1 ∧
      (decodeBlock b mem k).data = b.msgsize ∧
      (decodeBlock b mem k).size = b.totalSize - b.msgsize := by
  unfold decodeBlock
  rw [if_pos hb]
  exact ⟨rfl, rfl, rfl⟩

theorem readMessageArea_of_pos (mem : Nat → UInt8) (k : DecodeTiming) {msgsize : Int}
    (h : 0 < msgsize) : readMessageArea mem k msgsize =
      (⟨0, 4⟩ :: (readRecords mem k msgsize.toNat (int32Field (bytesAt mem 0 4)).toNat 4).1,
        (readRecords mem k msgsize.toNat (int32Field (bytesAt mem 0 4)).toNat 4).2) :=
  if_pos h

theorem readMessageArea_of_not_pos (mem : Nat → UInt8) (k : DecodeTiming) {msgsize : Int}
    (h : ¬ 0 < msgsize) : readMessageArea mem k msgsize = ([], []) := if_neg h

/-- **Nothing outside of a complete block is used**, by the loop over the messages and by the
decoder, exactly if the block is well sized. -/
theorem inside_iff (b : ReceivedBlock) (hb : b.complete = true) (mem : Nat → UInt8)
    (k : DecodeTiming) : (decodeBlock b mem k).Inside b ↔ WellSized b mem := by
  by_cases hmessages : 0 < b.totalSize ∧ 0 < b.messageSize
  · obtain ⟨htotal, hmsg⟩ := hmessages
    have hmsgsize : b.msgsize = b.messageSize := if_pos htotal
    obtain ⟨hreads, hdata, hsize⟩ := decodeBlock_eq hb mem k
    rw [hmsgsize] at hreads hdata hsize
    rw [readMessageArea_of_pos mem k hmsg] at hreads
    -- after the count the records are read one by one
    have hloop := @readRecords_inside_iff mem k b.messageSize.toNat
      (int32Field (bytesAt mem 0 4)).toNat 4
    constructor
    · intro h
      have hle : b.messageSize ≤ b.totalSize := by
        have := h.size
        omega
      have hcount : 4 ≤ b.messageSize := by
        have := h.reads ⟨0, 4⟩ (by rw [hreads]; exact List.mem_cons_self ..)
        dsimp only at this
        omega
      refine ⟨by omega, fun _ => by omega, fun _ _ => hcount, fun _ _ i hi hstart => ?_⟩
      unfold recordStart at hstart ⊢
      have := (hloop (by omega)).mp (fun a ha => ?_) i (by omega) (by omega)
      · omega
      · have := h.reads a (by rw [hreads]; exact List.mem_cons_of_mem _ ha)
        omega
    · intro h
      have hle := h.message htotal
      have hcount := h.count htotal hmsg
      refine ⟨fun a ha => ?_, by omega, by omega⟩
      rw [hreads] at ha
      rcases List.mem_cons.mp ha with rfl | ha
      · dsimp only
        omega
      · have := (hloop (by omega)).mpr (fun i hi hstart => ?_) a ha
        · omega
        · have := h.headers htotal hmsg i (by omega) (by unfold recordStart; omega)
          unfold recordStart at this
          omega
  · obtain ⟨hreads, hdata, hsize⟩ := decodeBlock_eq hb mem k
    -- without messages only the data pointer and the size remain
    have hmsgsize : ¬ 0 < b.msgsize := by
      unfold ReceivedBlock.msgsize
      split <;> omega
    rw [readMessageArea_of_not_pos mem k hmsgsize] at hreads
    unfold ReceivedBlock.msgsize at hdata hsize
    constructor
    · intro h
      have hdecoder := h.size
      have hpointer := h.pointer
      rw [hsize] at hdecoder
      rw [hdata] at hpointer
      refine ⟨?_, fun htotal => ?_, fun h0 h1 => by omega, fun h0 h1 => by omega⟩
      · split at hdecoder <;> omega
      · rw [if_pos htotal] at hdecoder hpointer
        omega
    · intro h
      have htotal := h.total
      refine ⟨fun a ha => ?_, ?_, ?_⟩
      · rw [hreads] at ha
        cases ha
      · rw [hsize]
        split
        next hpos => have := h.message hpos; omega
        next => omega
      · rw [hdata]
        split
        next hpos => exact h.message hpos
        next => omega

/-- A block of 80 bytes with one message of two bytes in front of the audio data. -/
theorem inside_oneRecord :
    let b : ReceivedBlock := { totalSize := 80, messageSize := 16 }
    let mem : Nat → UInt8 := fun i => [0, 0, 0, 1, 0, 3, 0, 2, 0, 1, 0, 2, 104, 105].getD i 0
    let k : DecodeTiming := ⟨0, 1, 0, by decide⟩
    b.complete = true ∧ (decodeBlock b mem k).entries.length = 1 ∧
      (decodeBlock b mem k).reads = [⟨0, 4⟩, ⟨4, 2⟩, ⟨6, 2⟩, ⟨8, 2⟩, ⟨10, 2⟩, ⟨12, 2⟩] ∧
      (decodeBlock b mem k).Inside b := by
  intro b mem k
  refine ⟨by decide, by decide +kernel, by decide +kernel, (inside_iff b (by decide) mem k).mpr ?_⟩
  refine ⟨by decide, fun _ => by decide, fun _ _ => by decide, fun _ _ i hi _ => ?_⟩
  have hone : int32Field (bytesAt mem 0 4) = 1 := by decide
  obtain rfl : i = 0 := by omega
  show ((4 : Nat) + 8 : Int) ≤ 16
  decide

/-- A binary message with a block of four bytes, all of them messages: the number one. The
header of the message lies behind the block. -/
theorem header_behind_block :
    let d : NetPacket := ⟨⟨0, 0, 0, 0, 4, 4, 1, 0, [0, 0, 0, 1], 4, 0, 0, 0, 0, 0, 0, 0⟩, 7⟩
    let as : List SinkAction :=
      [.handleStart ⟨7, 0, none, some 64, true, ⟨0, 2, 1, 3, [], by decide⟩, by decide⟩,
        .addPacket d]
    let b := (as.foldl SourceDesc.step {}).jitterBuffer.front
    parseDataBin [0, 0, 0, 7, 0, 0, 0, 0, 0, 4, 0, 4, 0, 0, 0, 4, 0, 0, 0, 1] = some d ∧
      b.complete = true ∧ b.frames.copyFrames = [some d.data] ∧
      ∀ (mem : Nat → UInt8) (k : DecodeTiming), bytesAt mem 0 4 = d.data →
        ¬ (decodeBlock b mem k).Inside b := by
  intro d as b
  have hcomplete : b.complete = true := by decide +kernel
  have hsizes : b.totalSize = 4 ∧ b.messageSize = 4 := by decide +kernel
  refine ⟨by decide +kernel, hcomplete, by decide +kernel, fun mem k hmem h => ?_⟩
  have hreads := (decodeBlock_eq hcomplete mem k).1
  have hmsgsize : b.msgsize = 4 := by
    unfold ReceivedBlock.msgsize
    rw [hsizes.1, hsizes.2]
    rfl
  have hcount : (int32Field (bytesAt mem 0 4)).toNat = 1 := by
    rw [hmem]
    decide +kernel
  rw [hmsgsize, readMessageArea_of_pos mem k (by decide), hcount] at hreads
  have hread : (⟨4 + 6, 2⟩ : Access) ∈ (decodeBlock b mem k).reads := by
    rw [hreads]
    refine List.mem_cons_of_mem _ ?_
    rw [readRecords]
    split
    next => simp
    next => simp
  have hbound := h.reads _ hread
  rw [hsizes.1, hsizes.2] at hbound
  dsimp only at hbound
  omega

/-! ## The messages -/

theorem bytesAt_length (mem : Nat → UInt8) (p n : Nat) : (bytesAt mem p n).length = n := by
  rw [bytesAt, List.length_map, List.length_range']

theorem take_bytesAt (mem : Nat → UInt8) (p : Nat) {n i : Nat} (h : i ≤ n) :
    (bytesAt mem p n).take i = bytesAt mem p i := by
  rw [bytesAt, ← List.map_take, List.take_range'_of_length_ge h, bytesAt]

theorem drop_bytesAt (mem : Nat → UInt8) (p n i : Nat) :
    (bytesAt mem p n).drop i = bytesAt mem (p + i) (n - i) := by
  rw [bytesAt, ← List.map_drop, List.drop_range', Nat.mul_one, bytesAt]

theorem field_bytesAt (mem : Nat → UInt8) (p : Nat) {n i : Nat} (h : i ≤ n) :
    field i (bytesAt mem p n) = field i (bytesAt mem p i) := by
  rw [field, field, take_bytesAt mem p h, List.take_of_length_le (Nat.le_of_eq (bytesAt_length ..))]

/-- Without a header that sticks out, the loop finds the messages that are in the message
area. -/
theorem readRecords_entries (mem : Nat → UInt8) (k : DecodeTiming) {endptr : Nat} (n : Nat) :
    ∀ p ≤ endptr,
      (∀ i < n, (nextRecord mem)^[i] p ≤ endptr → (nextRecord mem)^[i] p + 8 ≤ endptr) →
      (readRecords mem k endptr n p).2 = readMessages k n (bytesAt mem p (endptr - p)) := by
  induction n with
  | zero => exact fun p _ _ => rfl
  | succ n ih =>
    intro p hp hheaders
    have hhead : p + 8 ≤ endptr := hheaders 0 (Nat.succ_pos n) hp
    have hoffset : field 2 (bytesAt mem p (endptr - p)) = field 2 (bytesAt mem p 2) :=
      field_bytesAt mem p (by omega)
    have hfield : ∀ j ≤ 6, field 2 (bytesAt mem (p + j) (endptr - p - j)) =
        field 2 (bytesAt mem (p + j) 2) := fun j hj => field_bytesAt mem (p + j) (by omega)
    rw [readRecords, readMessages]
    simp only [drop_bytesAt, bytesAt_length, hoffset, hfield 2 (by omega), hfield 4 (by omega),
      hfield 6 (by omega)]
    unfold recordSize
    split
    next hbreak => rw [if_pos (by omega)]
    next hfits =>
      have hpad : field 2 (bytesAt mem (p + 6) 2) ≤ pad4 (field 2 (bytesAt mem (p + 6) 2)) := by
        unfold pad4
        omega
      have hnext : nextRecord mem p ≤ endptr := by
        unfold nextRecord recordSize
        omega
      rw [if_neg (by omega), take_bytesAt mem (p + 8) (by omega)]
      have hrest := ih (nextRecord mem p) hnext (fun i hi => ?_)
      · rw [show endptr - p - 8 - pad4 (field 2 (bytesAt mem (p + 6) 2)) =
          endptr - nextRecord mem p by unfold nextRecord recordSize; omega]
        exact congrArg (List.cons _) hrest
      · have := hheaders (i + 1) (Nat.succ_lt_succ hi)
        rwa [Function.iterate_succ_apply] at this

theorem decodeBlock_entries_eq (hb : b.complete = true) (mem : Nat → UInt8) (k : DecodeTiming) :
    (decodeBlock b mem k).entries = (if b.tt > 0 then
      [⟨k.streamSamples + k.codecDelay, 0, kAooDataStreamTime, 8, .streamTime b.tt⟩] else []) ++
        (readMessageArea mem k b.msgsize).2 := by
  unfold decodeBlock
  rw [if_pos hb]
  rfl

theorem int32Field_bytesAt (mem : Nat → UInt8) (p : Nat) {n : Nat} (h : 4 ≤ n) :
    int32Field (bytesAt mem p n) = int32Field (bytesAt mem p 4) := by
  unfold int32Field
  rw [field_bytesAt mem p h]

/-- The messages of a well-sized block are those of its bytes. -/
theorem decodeBlock_entries (hb : b.complete = true) {mem : Nat → UInt8} (h : WellSized b mem)
    (k : DecodeTiming) : (decodeBlock b mem k).entries =
      blockEntries k b.tt (bytesAt mem 0 b.totalSize.toNat) b.msgsize.toNat := by
  rw [decodeBlock_entries_eq hb, blockEntries]
  congr 1
  by_cases hmsgsize : 0 < b.msgsize
  · have hmsg : 0 < b.totalSize ∧ b.msgsize = b.messageSize := by
      unfold ReceivedBlock.msgsize at hmsgsize ⊢
      split at hmsgsize
      next hpos => exact ⟨hpos, if_pos hpos⟩
      next => omega
    obtain ⟨htotal, hmsg⟩ := hmsg
    have hle := h.message htotal
    have hcount := h.count htotal (by omega)
    have hfield := int32Field_bytesAt mem 0 (n := b.totalSize.toNat) (by omega)
    have hheaders : ∀ i < (int32Field (bytesAt mem 0 4)).toNat,
        (nextRecord mem)^[i] 4 ≤ b.messageSize.toNat →
          (nextRecord mem)^[i] 4 + 8 ≤ b.messageSize.toNat := by
      intro i hi hstart
      have := h.headers htotal (by omega) i (by omega) (by unfold recordStart; omega)
      unfold recordStart at this
      omega
    -- the pair has to be taken apart before the loop is looked at
    have hsnd : ∀ (reads : List Access) (entries : List StreamEntry),
        (reads, entries).2 = entries := fun _ _ => rfl
    rw [readMessageArea_of_pos mem k hmsgsize, if_pos (by omega), hfield,
      take_bytesAt mem 0 (by omega), drop_bytesAt, hmsg, Nat.zero_add]
    rw [hsnd]
    exact readRecords_entries mem k _ 4 (by omega) hheaders
  · rw [readMessageArea_of_not_pos mem k hmsgsize, if_neg (by omega)]

/-! ## The own source -/

/-- Behind a record of the source comes the next one. -/
theorem nextRecord_record {mem : Nat → UInt8} {t : BlockTiming} {m : StreamMessage} {p : Nat}
    {rest : List UInt8} (h : bytesAt mem p (m.record t ++ rest).length = m.record t ++ rest) :
    nextRecord mem p = p + (m.record t).length ∧
      bytesAt mem (p + (m.record t).length) rest.length = rest := by
  have hlength := record_length t m
  have hsize : m.data.length < 65536 := Nat.lt_succ_of_le m.size_le
  refine ⟨?_, ?_⟩
  · have hfield : recordSize mem p = field 2 ((m.record t ++ rest).drop 6) := by
      have hroom : 2 ≤ (m.record t ++ rest).length - 6 := by
        rw [List.length_append]
        omega
      rw [← h, drop_bytesAt, field_bytesAt mem (p + 6) hroom, recordSize]
    have hdrop : (m.record t ++ rest).drop 6 = toBytes 2 m.data.length ++
        (m.data ++ (List.replicate (padding m.data.length) 0 ++ rest)) := by
      simp only [StreamMessage.record, List.append_assoc]
      rw [← List.append_assoc, ← List.append_assoc]
      refine List.drop_left' ?_
      rw [List.length_append, List.length_append, toBytes_length, int16Bytes_length,
        int16Bytes_length]
    rw [hdrop, field_append, Nat.mod_eq_of_lt (by omega)] at hfield
    unfold nextRecord
    rw [hfield, hlength]
    omega
  · have hdrop := congrArg (List.drop (m.record t).length) h
    rwa [drop_bytesAt, List.drop_left, List.length_append, Nat.add_sub_cancel_left] at hdrop

theorem recordStart_records {mem : Nat → UInt8} {t : BlockTiming} (ms : List StreamMessage) :
    ∀ p (rest : List UInt8),
      bytesAt mem p (ms.flatMap (StreamMessage.record t) ++ rest).length =
        ms.flatMap (StreamMessage.record t) ++ rest →
      ∀ i < ms.length, (nextRecord mem)^[i] p + 8 ≤
        p + (ms.flatMap (StreamMessage.record t)).length := by
  induction ms with
  | nil => exact fun p rest _ i hi => absurd hi (Nat.not_lt_zero i)
  | cons m ms ih =>
    intro p rest h i hi
    rw [List.flatMap_cons, List.append_assoc] at h
    obtain ⟨hnext, hrest⟩ := nextRecord_record h
    have hlength := record_length t m
    rw [List.flatMap_cons, List.length_append]
    cases i with
    | zero =>
      show p + 8 ≤ _
      omega
    | succ i =>
      rw [Function.iterate_succ_apply, hnext]
      have := ih _ rest hrest i (Nat.lt_of_succ_lt_succ hi)
      omega

/-- What a source sends is well sized. -/
theorem wellSized_of_encode {t : BlockTiming} {ms : List StreamMessage} {o : Stream.Block}
    (ho : o.message = encodeMessages t ms) (htotal : b.totalSize = o.content.length)
    (hmsg : b.messageSize = o.message.length) {mem : Nat → UInt8}
    (hmem : bytesAt mem 0 o.content.length = o.content) : WellSized b mem := by
  have hcontent : o.content.length = o.message.length + o.audio.length := by
    rw [Block.content, List.length_append]
  by_cases hms : ms.length > 0
  · have hmessage : o.message = toBytes 4 ms.length ++ ms.flatMap (StreamMessage.record t) :=
      ho.trans (if_pos hms)
    have hlength : o.message.length = 4 + (ms.flatMap (StreamMessage.record t)).length := by
      rw [hmessage, List.length_append, toBytes_length]
    have hbytes : o.content =
        toBytes 4 ms.length ++ (ms.flatMap (StreamMessage.record t) ++ o.audio) := by
      rw [Block.content, hmessage, List.append_assoc]
    have hcount : int32Field (bytesAt mem 0 4) = ms.length := by
      have hlt := o.size_lt
      have hrecords := length_records t ms
      rw [← int32Field_bytesAt mem 0 (show 4 ≤ o.content.length by omega), hmem, hbytes, int32Field,
        field_append, Nat.mod_eq_of_lt (by omega)]
      exact Int.bmod_eq_of_le (by omega) (by omega)
    have htail : bytesAt mem 4 (ms.flatMap (StreamMessage.record t) ++ o.audio).length =
        ms.flatMap (StreamMessage.record t) ++ o.audio := by
      have hdrop := congrArg (List.drop 4) hmem
      rw [drop_bytesAt, Nat.zero_add, hbytes, drop_toBytes_append, List.length_append,
        toBytes_length, Nat.add_sub_cancel_left] at hdrop
      exact hdrop
    have hstart := recordStart_records ms 4 o.audio htail
    refine ⟨by omega, fun _ => by omega, fun _ _ => by omega, fun _ _ i hi _ => ?_⟩
    have := hstart i (by omega)
    unfold recordStart
    omega
  · have hnil : o.message.length = 0 := by
      rw [ho, encodeMessages, if_neg hms]
      rfl
    exact ⟨by omega, fun _ => by omega, fun _ hpos => by omega, fun _ hpos => by omega⟩

end Aoo.Stream
