import Mathlib.Data.Rat.Floor
import Aoo.Lib.PriorityQueue
import Aoo.Stream.Source

/-!
# Stream messages

Messages that travel with the audio (`Source::addStreamMessage`). The source keeps them in a
priority queue until the block with their sample time is sent, and writes them in front of
the audio: their offset in the block, channel, type and size in 16 bits each, then the data, padded
to four bytes. The sink reads them when it decodes the block, and schedules an entry for each;
`dispatch_stream_messages` hands those that are due to the user. The time tag of a block is
scheduled as an entry as well, with the type -1.

Times are in samples, over the rational numbers.

Main result: `stream_messages_iff`, which messages make the trip.
-/

namespace Aoo.Stream

open Lib

/-! ## The source -/

/-- `kAooStreamMessageMaxSize` -/
def kAooStreamMessageMaxSize : Nat := 65535

def kAooErrorIdle : AooError := .other 7
def kAooErrorOverflow : AooError := .other 9

/-- `AooStreamMessage`, as the user gives it to the source. -/
structure AooStreamMessage where
  sampleOffset : Int
  channel : Int
  type : Int
  data : List UInt8
  deriving DecidableEq, Repr

/-- `stream_message` -/
structure StreamMessage where
  time : Nat
  channel : Int
  type : Int
  data : List UInt8
  size_le : data.length ≤ kAooStreamMessageMaxSize
  time_lt : time < 2 ^ 64 := by decide
  deriving DecidableEq, Repr

/-- `(int64_t)msg.time`, which is negative for a time before the start of the stream. -/
def StreamMessage.sampleTime (m : StreamMessage) : Int := signed 18446744073709551616 m.time

/-- `stream_state`, as far as messages depend on it. -/
inductive SourceStreamState
  | idle
  | start
  | run
  deriving DecidableEq, Repr

/-- `Source::addStreamMessage`: the message that is queued. Times are 64-bit. -/
def addStreamMessage (state : SourceStreamState) (processSamples : Nat)
    (message : AooStreamMessage) : Except AooError StreamMessage :=
  if h : message.data.length ≤ kAooStreamMessageMaxSize then
    if state = .idle then .error kAooErrorIdle
    else
      let time : Int :=
        if state = .start then message.sampleOffset else processSamples + message.sampleOffset
      .ok ⟨unsigned 18446744073709551616 time, message.channel, message.type, message.data, h,
        unsigned_lt (by decide) time⟩
  else .error kAooErrorOverflow

/-- What `send_data` knows when it makes a block. -/
structure BlockTiming where
  streamSamples : ℚ
  ratio : ℚ
  blockSize : Nat
  stream_nonneg : 0 ≤ streamSamples
  ratio_pos : 0 < ratio

namespace BlockTiming

/-- `(int64_t)stream_samples_` -/
def start (t : BlockTiming) : Int := ⌊t.streamSamples⌋

def deadline (t : BlockTiming) : ℚ := t.streamSamples + t.blockSize / t.ratio

/-- `(uint64_t)deadline` -/
def stop (t : BlockTiming) : Nat := ⌊t.deadline⌋.toNat

/-- The offset of a sample time in the block, in samples of the stream. -/
def offset (t : BlockTiming) (time : Nat) : ℚ :=
  (signed 18446744073709551616 time - t.start : Int) * t.ratio

end BlockTiming

/-- The cast of a `double` to an integer cuts off the fraction. -/
def trunc (x : ℚ) : Int := if 0 ≤ x then ⌊x⌋ else -⌊-x⌋

/-- The bytes behind the data, up to a multiple of four. -/
def padding (size : Nat) : Nat := if size % 4 > 0 then 4 - size % 4 else 0

/-- A message in the send buffer. -/
def StreamMessage.record (t : BlockTiming) (m : StreamMessage) : List UInt8 :=
  toBytes 2 (unsigned 65536 (trunc (t.offset m.time))) ++ (int16Bytes m.channel ++
    (int16Bytes m.type ++ (toBytes 2 m.data.length ++
      (m.data ++ List.replicate (padding m.data.length) 0))))

/-- The messages of a block: their number and the messages, or nothing. -/
def encodeMessages (t : BlockTiming) (ms : List StreamMessage) : List UInt8 :=
  if ms.length > 0 then toBytes 4 ms.length ++ ms.flatMap (StreamMessage.record t) else []

/-- `stream_message_comp` -/
def streamMessageComp (a b : StreamMessage) : Bool := decide (a.time > b.time)

/-- `message_queue_` and `message_prio_queue_`. `pending` is not in the source: the messages of
the priority queue in the order in which they were added. -/
structure MessageQueues where
  messageQueue : List StreamMessage := []
  messagePrioQueue : PriorityQueue StreamMessage := {}
  pending : List StreamMessage := []

namespace MessageQueues

/-- `message_queue_.consume_all`: outdated messages are skipped. -/
def consumeAll (q : MessageQueues) (t : BlockTiming) : MessageQueues :=
  q.messageQueue.foldl (fun q m =>
      if m.sampleTime - t.start < 0 then q
      else
        { q with
          messagePrioQueue := q.messagePrioQueue.push streamMessageComp m
          pending := q.pending ++ [m] })
    { q with messageQueue := [] }

/-- `send_data`: the messages of the next block, as they are written. -/
def sendBlock (q : MessageQueues) (t : BlockTiming) : MessageQueues × List StreamMessage :=
  let q := q.consumeAll t
  let (taken, prio) := q.messagePrioQueue.popWhile fun m => decide (m.time < t.stop)
  ({ q with
      messagePrioQueue := prio
      pending := q.pending.filter fun m => !decide (m.time < t.stop) }, taken)

end MessageQueues

/-- What happens to the messages of a source. -/
inductive MessageAction
  | addStreamMessage (state : SourceStreamState) (processSamples : Nat) (message : AooStreamMessage)
  | sendBlock (t : BlockTiming)
  | makeNewStream

def MessageQueues.step (q : MessageQueues) : MessageAction → MessageQueues
  | .addStreamMessage state processSamples message =>
    match Stream.addStreamMessage state processSamples message with
    | .ok m => { q with messageQueue := q.messageQueue ++ [m] }
    | .error _ => q
  | .sendBlock t => (q.sendBlock t).1
  | .makeNewStream => { q with messagePrioQueue := {}, pending := [] }

/-! ## The sink -/

/-- The type of the entries for time tags. -/
def kAooDataStreamTime : Int := -1

/-- What follows the header of an entry. -/
inductive EntryData
  | message (data : List UInt8)
  | streamTime (tt : Nat)
  deriving DecidableEq, Repr

/-- `stream_message_header` with what follows it. -/
structure StreamEntry where
  time : ℚ
  channel : Int
  type : Int
  size : Nat
  data : EntryData
  deriving DecidableEq

/-- What `try_decode_block` knows about time. -/
structure DecodeTiming where
  streamSamples : ℚ
  resample : ℚ
  codecDelay : ℚ
  resample_pos : 0 < resample

/-- The loop that reads the messages of a block. -/
def readMessages (k : DecodeTiming) : Nat → List UInt8 → List StreamEntry
  | 0, _ => []
  | n + 1, msgptr =>
    let offset := field 2 msgptr
    let channel := field 2 (msgptr.drop 2)
    let type := field 2 (msgptr.drop 4)
    let size := field 2 (msgptr.drop 6)
    let rest := msgptr.drop 8
    let alignedSize := pad4 size
    if rest.length < alignedSize then []
    else
      ⟨k.streamSamples + offset * k.resample, signed 65536 channel, signed 65536 type, size,
          .message (rest.take size)⟩ ::
        readMessages k n (rest.drop alignedSize)

/-- `try_decode_block`: the entries that are scheduled for a complete block, one after the
other. -/
def blockEntries (k : DecodeTiming) (tt : Nat) (data : List UInt8) (msgsize : Nat) :
    List StreamEntry :=
  (if tt > 0 then
    [⟨k.streamSamples + k.codecDelay, 0, kAooDataStreamTime, 8, .streamTime tt⟩] else []) ++
  if msgsize > 0 then
    readMessages k (int32Field data).toNat ((data.take msgsize).drop 4)
  else []

/-- `sched_stream_message` -/
def schedStreamMessage (msg : StreamEntry) : List StreamEntry → List StreamEntry
  | [] => [msg]
  | it :: next =>
    if msg.time ≥ it.time then it :: schedStreamMessage msg next else msg :: it :: next

/-- What the user gets. -/
inductive Dispatched
  | message (sampleOffset channel type : Int) (size : Nat) (data : EntryData)
  | streamTimeEvent (sampleOffset : Int) (data : EntryData)
  deriving DecidableEq

/-- `int32_t offset = it->time - process_samples_ + 0.5` -/
def StreamEntry.offset (e : StreamEntry) (processSamples : Int) : Int :=
  trunc (e.time - processSamples + 1 / 2)

/-- The body of the loop in `dispatch_stream_messages`. Entries that are late are skipped. -/
def StreamEntry.dispatch (e : StreamEntry) (processSamples : Int) : Option Dispatched :=
  if e.offset processSamples ≥ 0 then
    if e.type = kAooDataStreamTime then
      some (.streamTimeEvent (e.offset processSamples) e.data)
    else some (.message (e.offset processSamples) e.channel e.type e.size e.data)
  else none

/-- The loop: the entries that are taken from the list, and the others. -/
def takeDue (processSamples : Int) (nsamples : Nat) :
    List StreamEntry → List StreamEntry × List StreamEntry
  | [] => ([], [])
  | it :: next =>
    if it.time < processSamples + nsamples then
      if it.offset processSamples ≥ nsamples then ([], it :: next)
      else
        let (taken, left) := takeDue processSamples nsamples next
        (it :: taken, left)
    else ([], it :: next)

/-! ## The priority queue -/

/-- No block starts before the stream. -/
theorem BlockTiming.start_nonneg (t : BlockTiming) : 0 ≤ t.start :=
  Int.floor_nonneg.mpr t.stream_nonneg

/-- The offset in a block is the distance from its start, in samples of the stream. -/
theorem BlockTiming.offset_eq (t : BlockTiming) (m : StreamMessage) :
    t.offset m.time = (m.sampleTime - t.start : Int) * t.ratio := by
  rw [offset, StreamMessage.sampleTime]

/-- A sample time that is not negative is the 64-bit number. -/
theorem StreamMessage.sampleTime_eq {m : StreamMessage} (h : 0 ≤ m.sampleTime) :
    m.sampleTime = m.time :=
  signed_of_nonneg m.time_lt h

/-- A message goes to the queue in the order of its time. -/
theorem push_pending {q : MessageQueues} (h : q.messagePrioQueue.Holds StreamMessage.time q.pending)
    (m : StreamMessage) :
    (q.messagePrioQueue.push streamMessageComp m).Holds StreamMessage.time (q.pending ++ [m]) :=
  h.push m

/-- The priority queue gets the messages that are not outdated. -/
theorem consumeAll_spec {q : MessageQueues}
    (h : q.messagePrioQueue.Holds StreamMessage.time q.pending) (t : BlockTiming) :
    (q.consumeAll t).messagePrioQueue.Holds StreamMessage.time (q.consumeAll t).pending ∧
      (q.consumeAll t).pending =
        q.pending ++ q.messageQueue.filter (fun m => decide (t.start ≤ m.sampleTime)) := by
  have hloop : ∀ (ms : List StreamMessage) (q : MessageQueues),
      q.messagePrioQueue.Holds StreamMessage.time q.pending →
      let q' := ms.foldl (fun q m =>
        if m.sampleTime - t.start < 0 then q
        else
          { q with
            messagePrioQueue := q.messagePrioQueue.push streamMessageComp m
            pending := q.pending ++ [m] }) q
      q'.messagePrioQueue.Holds StreamMessage.time q'.pending ∧
        q'.pending = q.pending ++ ms.filter (fun m => decide (t.start ≤ m.sampleTime)) := by
    intro ms
    induction ms with
    | nil => exact fun q h => ⟨h, (List.append_nil _).symm⟩
    | cons m ms ih =>
      intro q h
      rw [List.foldl_cons]
      by_cases hold : m.sampleTime - t.start < 0
      · rw [if_pos hold, List.filter_cons_of_neg (by simp only [decide_eq_true_eq]; omega)]
        exact ih q h
      · rw [if_neg hold, List.filter_cons_of_pos (by simp only [decide_eq_true_eq]; omega)]
        obtain ⟨hholds, hpending⟩ := ih
          { q with
            messagePrioQueue := q.messagePrioQueue.push streamMessageComp m
            pending := q.pending ++ [m] } (push_pending h m)
        refine ⟨hholds, hpending.trans ?_⟩
        rw [List.append_assoc]
        rfl
  exact hloop q.messageQueue { q with messageQueue := [] } h

/-- The messages of a block come out in the order of time and insertion. -/
theorem sendBlock_spec {q : MessageQueues}
    (h : q.messagePrioQueue.Holds StreamMessage.time q.pending) (t : BlockTiming) :
    Ordered StreamMessage.time
        ((q.pending ++ q.messageQueue.filter (fun m => decide (t.start ≤ m.sampleTime))).filter
          fun m => decide (m.time < t.stop)) (q.sendBlock t).2 ∧
      (q.sendBlock t).1.messagePrioQueue.Holds StreamMessage.time (q.sendBlock t).1.pending := by
  obtain ⟨hholds, hpending⟩ := consumeAll_spec h t
  have hpop := hholds.popWhile t.stop
  refine ⟨?_, hpop.2⟩
  rw [← hpending]
  exact hpop.1

/-- A message does not come into the priority queue with a sample time that is negative. -/
theorem sendBlock_timed {q : MessageQueues}
    (h : q.messagePrioQueue.Holds StreamMessage.time q.pending)
    (htimed : ∀ m ∈ q.pending, m.sampleTime = m.time) (t : BlockTiming) :
    ∀ m ∈ (q.sendBlock t).1.pending, m.sampleTime = m.time := by
  intro m hm
  have hm : m ∈ (q.consumeAll t).pending := (List.mem_filter.mp hm).1
  rw [(consumeAll_spec h t).2] at hm
  rcases List.mem_append.mp hm with hm | hm
  · exact htimed m hm
  · have hstart := of_decide_eq_true (List.mem_filter.mp hm).2
    exact StreamMessage.sampleTime_eq (t.start_nonneg.trans hstart)

/-- In every run, the priority queue holds what was added to it and not yet sent. -/
theorem run_pending (as : List MessageAction) :
    (as.foldl MessageQueues.step {}).messagePrioQueue.Holds StreamMessage.time
        (as.foldl MessageQueues.step {}).pending ∧
      ∀ m ∈ (as.foldl MessageQueues.step {}).pending, m.sampleTime = m.time := by
  have hstep : ∀ (q : MessageQueues) (a : MessageAction),
      q.messagePrioQueue.Holds StreamMessage.time q.pending ∧
        (∀ m ∈ q.pending, m.sampleTime = m.time) →
      (q.step a).messagePrioQueue.Holds StreamMessage.time (q.step a).pending ∧
        ∀ m ∈ (q.step a).pending, m.sampleTime = m.time := by
    intro q a h
    cases a with
    | addStreamMessage state processSamples message =>
      simp only [MessageQueues.step]
      split <;> exact h
    | sendBlock t => exact ⟨(sendBlock_spec h.1 t).2, sendBlock_timed h.1 h.2 t⟩
    | makeNewStream =>
      exact ⟨PriorityQueue.holds_empty _, fun m hm => absurd hm List.not_mem_nil⟩
  suffices hrun : ∀ (as : List MessageAction) (q : MessageQueues),
      q.messagePrioQueue.Holds StreamMessage.time q.pending ∧
        (∀ m ∈ q.pending, m.sampleTime = m.time) →
      (as.foldl MessageQueues.step q).messagePrioQueue.Holds StreamMessage.time
          (as.foldl MessageQueues.step q).pending ∧
        ∀ m ∈ (as.foldl MessageQueues.step q).pending, m.sampleTime = m.time from
    hrun as {} ⟨PriorityQueue.holds_empty _, fun m hm => absurd hm List.not_mem_nil⟩
  intro as
  induction as with
  | nil => exact fun q h => h
  | cons a as ih => exact fun q h => ih (q.step a) (hstep q a h)

/-! ## The round trip -/

/-- The entry that the sink makes of what is on the wire. -/
def wireEntry (t : BlockTiming) (k : DecodeTiming) (m : StreamMessage) : StreamEntry where
  time := k.streamSamples + (unsigned 65536 (trunc (t.offset m.time)) : ℕ) * k.resample
  channel := signed 65536 (unsigned 65536 m.channel)
  type := signed 65536 (unsigned 65536 m.type)
  size := m.data.length
  data := .message m.data

/-- Data is padded to four bytes. -/
theorem add_padding (size : Nat) : size + padding size = pad4 size := by
  unfold padding pad4
  split <;> omega

/-- A record is a header of eight bytes and the padded data. -/
theorem record_length (t : BlockTiming) (m : StreamMessage) :
    (m.record t).length = 8 + pad4 m.data.length := by
  simp only [StreamMessage.record, List.length_append, toBytes_length, int16Bytes_length,
    List.length_replicate, ← add_padding]
  omega

/-- One message is read back, up to the width of its fields. -/
theorem readMessages_record (t : BlockTiming) (k : DecodeTiming) (m : StreamMessage) (n : Nat)
    (rest : List UInt8) :
    readMessages k (n + 1) (m.record t ++ rest) = wireEntry t k m :: readMessages k n rest := by
  have hoffset : unsigned 65536 (trunc (t.offset m.time)) < 65536 := unsigned_lt (by decide) _
  have hchannel : unsigned 65536 m.channel < 65536 := unsigned_lt (by decide) _
  have htype : unsigned 65536 m.type < 65536 := unsigned_lt (by decide) _
  have hsize : m.data.length < 65536 := Nat.lt_succ_of_le m.size_le
  have hdrop : ∀ (a b c d e : List UInt8), a.length = 2 → b.length = 2 → c.length = 2 →
      d.length = 2 → (a ++ (b ++ (c ++ (d ++ e)))).drop 2 = b ++ (c ++ (d ++ e)) ∧
      (a ++ (b ++ (c ++ (d ++ e)))).drop 4 = c ++ (d ++ e) ∧
      (a ++ (b ++ (c ++ (d ++ e)))).drop 6 = d ++ e ∧
      (a ++ (b ++ (c ++ (d ++ e)))).drop 8 = e := by
    intro a b c d e ha hb hc hd
    refine ⟨?_, ?_, ?_, ?_⟩ <;>
      simp [List.drop_append, ha, hb, hc, hd, List.drop_eq_nil_of_le]
  have hbytes : m.record t ++ rest =
      toBytes 2 (unsigned 65536 (trunc (t.offset m.time))) ++ (int16Bytes m.channel ++
        (int16Bytes m.type ++ (toBytes 2 m.data.length ++
          (m.data ++ (List.replicate (padding m.data.length) 0 ++ rest))))) := by
    simp only [StreamMessage.record, List.append_assoc]
  obtain ⟨h2, h4, h6, h8⟩ := hdrop (toBytes 2 (unsigned 65536 (trunc (t.offset m.time))))
    (int16Bytes m.channel) (int16Bytes m.type) (toBytes 2 m.data.length)
    (m.data ++ (List.replicate (padding m.data.length) 0 ++ rest)) (by simp) (by simp) (by simp)
    (by simp)
  have hlast : (m.data ++ (List.replicate (padding m.data.length) 0 ++ rest)).drop
      (pad4 m.data.length) = rest := by
    rw [← List.append_assoc, ← add_padding]
    exact List.drop_left' (by rw [List.length_append, List.length_replicate])
  rw [readMessages, hbytes, h2, h4, h6, h8, int16Bytes, int16Bytes]
  have hmod : ∀ v < 65536, v % 256 ^ 2 = v := fun v hv => Nat.mod_eq_of_lt hv
  simp only [field_append, hmod _ hoffset, hmod _ hchannel, hmod _ htype, hmod _ hsize, hlast,
    List.take_left]
  rw [if_neg]
  · rfl
  · rw [← add_padding, List.length_append, List.length_append, List.length_replicate]
    omega

/-- The sink finds the records that the source has written. -/
theorem readMessages_records (t : BlockTiming) (k : DecodeTiming) (ms : List StreamMessage) :
    readMessages k ms.length (ms.flatMap (StreamMessage.record t)) = ms.map (wireEntry t k) := by
  induction ms with
  | nil => rfl
  | cons m ms ih => rw [List.length_cons, List.flatMap_cons, readMessages_record, ih, List.map_cons]

/-- Each record takes eight bytes at least. -/
theorem length_records (t : BlockTiming) (ms : List StreamMessage) :
    8 * ms.length ≤ (ms.flatMap (StreamMessage.record t)).length := by
  induction ms with
  | nil => exact Nat.le_refl 0
  | cons m ms ih =>
    rw [List.flatMap_cons, List.length_append, List.length_cons, record_length]
    omega

/-- The sink reads what stands in front of the audio. -/
theorem blockEntries_encode (t : BlockTiming) (k : DecodeTiming) {ms : List StreamMessage}
    {b : Block} (hb : b.message = encodeMessages t ms) :
    blockEntries k b.tt b.content b.message.length =
      blockEntries k b.tt [] 0 ++ ms.map (wireEntry t k) := by
  unfold blockEntries
  rw [if_neg (Nat.lt_irrefl 0), List.append_nil]
  congr 1
  by_cases hms : ms.length > 0
  · have hmessage : b.message = toBytes 4 ms.length ++ ms.flatMap (StreamMessage.record t) :=
      hb.trans (if_pos hms)
    have hlength := length_records t ms
    have hlt := b.size_lt
    have htotal : b.message.length = 4 + (ms.flatMap (StreamMessage.record t)).length := by
      rw [hmessage, List.length_append, toBytes_length]
    have hcount : int32Field b.content = ms.length := by
      rw [Block.content, hmessage, List.append_assoc, int32Field, field_append,
        Nat.mod_eq_of_lt (by omega)]
      exact Int.bmod_eq_of_le (by omega) (by omega)
    have hrecords : (b.content.take b.message.length).drop 4 =
        ms.flatMap (StreamMessage.record t) := by
      rw [Block.content, List.take_left, hmessage]
      exact drop_toBytes_append 4 _ _
    rw [if_pos (by omega), hcount, hrecords, Int.toNat_natCast, readMessages_records]
  · have hnil : ms = [] := List.eq_nil_of_length_eq_zero (by omega)
    have hmessage : b.message = [] := hb.trans (if_neg hms)
    rw [hmessage, hnil]
    rfl

/-- The entry that a message should become. -/
def StreamMessage.entry (t : BlockTiming) (k : DecodeTiming) (m : StreamMessage) : StreamEntry where
  time := k.streamSamples + trunc (t.offset m.time) * k.resample
  channel := m.channel
  type := m.type
  size := m.data.length
  data := .message m.data

/-- The fields of the message fit in 16 bits. -/
structure StreamMessage.Fits (t : BlockTiming) (m : StreamMessage) : Prop where
  offset : 0 ≤ trunc (t.offset m.time) ∧ trunc (t.offset m.time) < 65536
  channel : -32768 ≤ m.channel ∧ m.channel < 32768
  type : -32768 ≤ m.type ∧ m.type < 32768

/-- A number survives 16 bits if it is in their range. -/
theorem signed16_iff (v : Int) :
    signed 65536 (unsigned 65536 v) = v ↔ -32768 ≤ v ∧ v < 32768 := by
  constructor
  · intro h
    rw [← h]
    exact ⟨Int.le_bmod (by decide), Int.bmod_lt (by decide)⟩
  · rintro ⟨h0, h1⟩
    exact signed_unsigned (by decide) (by omega) (by omega)

/-- A message arrives as it should if its fields fit. -/
theorem wireEntry_eq_iff (t : BlockTiming) (k : DecodeTiming) (m : StreamMessage) :
    wireEntry t k m = m.entry t k ↔ m.Fits t := by
  have htime : k.streamSamples + ((unsigned 65536 (trunc (t.offset m.time)) : ℕ) : ℚ) * k.resample =
      k.streamSamples + (trunc (t.offset m.time) : ℚ) * k.resample ↔
      0 ≤ trunc (t.offset m.time) ∧ trunc (t.offset m.time) < 65536 := by
    rw [add_right_inj, mul_left_inj' (ne_of_gt k.resample_pos)]
    constructor
    · intro h
      have hlt := unsigned_lt (m := 65536) (by decide) (trunc (t.offset m.time))
      have heq : ((unsigned 65536 (trunc (t.offset m.time)) : ℕ) : Int) =
          trunc (t.offset m.time) := by exact_mod_cast h
      omega
    · rintro ⟨h0, h1⟩
      have heq := unsigned_of_lt h0 (m := 65536) h1
      exact_mod_cast heq
  constructor
  · intro h
    simp only [wireEntry, StreamMessage.entry, StreamEntry.mk.injEq] at h
    exact ⟨htime.mp h.1, (signed16_iff _).mp h.2.1, (signed16_iff _).mp h.2.2.1⟩
  · intro h
    simp only [wireEntry, StreamMessage.entry, StreamEntry.mk.injEq]
    exact ⟨htime.mpr h.offset, (signed16_iff _).mpr h.channel, (signed16_iff _).mpr h.type, trivial,
      trivial⟩

/-! ## What a block should carry -/

/-- The sample time lies in the block. -/
def BlockTiming.contains (t : BlockTiming) (m : StreamMessage) : Bool :=
  decide (t.start ≤ m.sampleTime) && decide (m.time < t.stop)

/-- Messages of the block make the trip: the sink schedules one entry for each, in the order of
time and insertion, behind that of a time tag, and no others. -/
def MessagesArrive (q : MessageQueues) (t : BlockTiming) (k : DecodeTiming) (b : Block) : Prop :=
  ∃ due, Ordered StreamMessage.time ((q.pending ++ q.messageQueue).filter (t.contains ·)) due ∧
    blockEntries k b.tt b.content b.message.length =
      blockEntries k b.tt [] 0 ++ due.map (StreamMessage.entry t k)

/-- A block does not end before it starts. -/
theorem start_le_stop (t : BlockTiming) : t.start ≤ t.stop := by
  have hle : t.streamSamples ≤ t.deadline := by
    have := div_nonneg (Nat.cast_nonneg (α := ℚ) t.blockSize) (le_of_lt t.ratio_pos)
    unfold BlockTiming.deadline
    linarith
  have hfloor : t.start ≤ ⌊t.deadline⌋ := Int.floor_le_floor hle
  unfold BlockTiming.stop
  omega

/-- What is taken for a block, from the queue of times and from the new messages. -/
theorem filter_contains (t : BlockTiming) (pending queue : List StreamMessage) :
    ((pending ++ queue.filter (fun m => decide (t.start ≤ m.sampleTime))).filter
      fun m => decide (m.time < t.stop)) =
      pending.filter (fun m => decide (m.time < t.stop)) ++ queue.filter (t.contains ·) := by
  have hqueue : queue.filter (fun m => decide (m.time < t.stop) && decide (t.start ≤ m.sampleTime)) =
      queue.filter (t.contains ·) := List.filter_congr fun m _ => Bool.and_comm _ _
  rw [List.filter_append, List.filter_filter, hqueue]

/-- Times below 2^63 are compared as they are. -/
theorem contains_of_sampleTime_eq {m : StreamMessage} (h : m.sampleTime = m.time)
    (t : BlockTiming) : t.contains m = (decide (t.start ≤ m.time) && decide (m.time < t.stop)) := by
  rw [BlockTiming.contains, h]

/-- Messages before the end of a block are in it or late. -/
theorem length_filter_contains (t : BlockTiming) {pending : List StreamMessage}
    (htimed : ∀ m ∈ pending, m.sampleTime = m.time) :
    (pending.filter fun m => decide (m.time < t.stop)).length =
      (pending.filter (t.contains ·)).length +
        (pending.filter fun m => decide ((m.time : Int) < t.start)).length := by
  have hle := start_le_stop t
  induction pending with
  | nil => rfl
  | cons m pending ih =>
    have ih := ih fun m hm => htimed m (List.mem_cons_of_mem _ hm)
    have hcontains := contains_of_sampleTime_eq (htimed m (List.mem_cons_self ..)) t
    by_cases hold : (m.time : Int) < t.start
    · have hstop : m.time < t.stop := by omega
      rw [List.filter_cons_of_pos (by simpa using hstop), List.length_cons,
        List.filter_cons_of_neg (by simp [hcontains, hold]),
        List.filter_cons_of_pos (by simpa using hold), List.length_cons, ih]
      omega
    · have hstart : t.start ≤ m.time := by omega
      rw [List.filter_cons_of_neg (p := fun m : StreamMessage => decide ((m.time : Int) < t.start))
        (by simpa using hold)]
      by_cases hstop : m.time < t.stop
      · rw [List.filter_cons_of_pos (by simpa using hstop), List.length_cons,
          List.filter_cons_of_pos (by simp [hcontains, hstart, hstop]),
          List.length_cons, ih]
        omega
      · rw [List.filter_cons_of_neg (by simpa using hstop),
          List.filter_cons_of_neg (by simp [hcontains, hstop]), ih]

/-- When the messages of a block make the trip. -/
theorem messagesArrive_iff {q : MessageQueues}
    (h : q.messagePrioQueue.Holds StreamMessage.time q.pending)
    (htimed : ∀ m ∈ q.pending, m.sampleTime = m.time) (t : BlockTiming)
    (k : DecodeTiming) {b : Block} (hb : b.message = encodeMessages t (q.sendBlock t).2) :
    MessagesArrive q t k b ↔
      (∀ m ∈ q.pending, t.start ≤ m.time) ∧
        ∀ m ∈ q.pending ++ q.messageQueue, t.contains m = true → m.Fits t := by
  obtain ⟨hordered, -⟩ := sendBlock_spec h t
  rw [filter_contains] at hordered
  unfold MessagesArrive
  simp only [blockEntries_encode t k hb, List.append_cancel_left_eq]
  constructor
  · rintro ⟨due, hdue, heq⟩
    -- No message too many was sent, so none was outdated.
    have hlength : (q.sendBlock t).2.length = due.length := by
      have := congrArg List.length heq
      rwa [List.length_map, List.length_map] at this
    have hnone : (q.pending.filter fun m => decide ((m.time : Int) < t.start)).length = 0 := by
      have hsent := hordered.perm.length_eq
      have hexpected := hdue.perm.length_eq
      rw [List.length_append, length_filter_contains t htimed] at hsent
      rw [List.filter_append, List.length_append] at hexpected
      omega
    have hstart : ∀ m ∈ q.pending, t.start ≤ m.time := by
      intro m hm
      have := List.filter_eq_nil_iff.mp (List.eq_nil_of_length_eq_zero hnone) m hm
      simp only [decide_eq_true_eq] at this
      omega
    have hsame : q.pending.filter (fun m => decide (m.time < t.stop)) =
        q.pending.filter (t.contains ·) := by
      refine List.filter_congr fun m hm => ?_
      simp [contains_of_sampleTime_eq (htimed m hm) t, hstart m hm]
    rw [hsame, ← List.filter_append] at hordered
    rw [hordered.unique hdue] at heq
    refine ⟨hstart, fun m hm hin => ?_⟩
    have hmem : m ∈ due := hdue.mem_iff.mpr (List.mem_filter.mpr ⟨hm, hin⟩)
    exact (wireEntry_eq_iff t k m).mp (List.map_inj_left.mp heq m hmem)
  · rintro ⟨hstart, hfits⟩
    have hsame : q.pending.filter (fun m => decide (m.time < t.stop)) =
        q.pending.filter (t.contains ·) := by
      refine List.filter_congr fun m hm => ?_
      simp [contains_of_sampleTime_eq (htimed m hm) t, hstart m hm]
    rw [hsame, ← List.filter_append] at hordered
    refine ⟨(q.sendBlock t).2, hordered, List.map_inj_left.mpr fun m hm => ?_⟩
    obtain ⟨hm, hin⟩ := List.mem_filter.mp (hordered.mem_iff.mp hm)
    exact (wireEntry_eq_iff t k m).mpr (hfits m hm hin)

/-! ## Dispatch -/

/-- The messages of a `source_desc`. The last two fields are not in the source: all that was
scheduled since the last reset, and what was taken from the list, with `process_samples_` at
that time. -/
structure SinkMessages where
  streamMessages : List StreamEntry := []
  processSamples : Int := 0
  scheduled : List StreamEntry := []
  taken : List (StreamEntry × Int) := []

/-- What happens to the messages in a sink. Process time also advances when a process block is
skipped for an xrun. -/
inductive SinkMessageAction
  | tryDecodeBlock (k : DecodeTiming) (tt : Nat) (data : List UInt8) (msgsize : Nat)
  | dispatchStreamMessages (nsamples : Nat)
  | skipXRun (nsamples : Nat)
  | resetStream

def SinkMessages.step (s : SinkMessages) : SinkMessageAction → SinkMessages
  | .tryDecodeBlock k tt data msgsize =>
    let entries := blockEntries k tt data msgsize
    { s with
      streamMessages := entries.foldl (fun l e => schedStreamMessage e l) s.streamMessages
      scheduled := s.scheduled ++ entries }
  | .dispatchStreamMessages nsamples =>
    let (taken, left) := takeDue s.processSamples nsamples s.streamMessages
    { s with
      streamMessages := left
      processSamples := s.processSamples + nsamples
      taken := s.taken ++ taken.map (·, s.processSamples) }
  | .skipXRun nsamples => { s with processSamples := s.processSamples + nsamples }
  | .resetStream => {}

/-- The entry was made of a stream message. -/
def StreamEntry.isMessage (e : StreamEntry) : Bool :=
  match e.data with
  | .message _ => true
  | .streamTime _ => false

/-- What the user should get for an entry: the message, or an event for a time tag. -/
def StreamEntry.expected (e : StreamEntry) (processSamples : Int) : Dispatched :=
  if e.isMessage then .message (e.offset processSamples) e.channel e.type e.size e.data
  else .streamTimeEvent (e.offset processSamples) e.data

/-- Entries of time tags have the type for them. -/
def StreamEntry.Tagged (e : StreamEntry) : Prop := e.isMessage = false → e.type = kAooDataStreamTime

/-- An entry is dispatched as it should be if it is not late, and not a message that looks
like a time tag. -/
theorem dispatch_eq_iff {e : StreamEntry} (he : e.Tagged) (processSamples : Int) :
    e.dispatch processSamples = some (e.expected processSamples) ↔
      0 ≤ e.offset processSamples ∧ ¬ (e.isMessage = true ∧ e.type = kAooDataStreamTime) := by
  unfold StreamEntry.dispatch StreamEntry.expected
  by_cases hlate : e.offset processSamples ≥ 0
  · rw [if_pos hlate]
    cases hmessage : e.isMessage with
    | false => simp [he hmessage, hlate]
    | true =>
      by_cases htype : e.type = kAooDataStreamTime
      · simp [htype]
      · simp [htype, hlate]
  · simp [hlate]

/-- What is read from a block are messages. -/
theorem tagged_readMessages (k : DecodeTiming) (n : Nat) (msgptr : List UInt8) :
    ∀ e ∈ readMessages k n msgptr, e.isMessage = true := by
  induction n generalizing msgptr with
  | zero => exact fun e he => absurd he List.not_mem_nil
  | succ n ih =>
    intro e he
    rw [readMessages] at he
    split at he
    next => exact absurd he List.not_mem_nil
    next =>
      rcases List.mem_cons.mp he with rfl | he
      · rfl
      · exact ih _ e he

/-- The entries of a block are its messages and its time tag. -/
theorem tagged_blockEntries (k : DecodeTiming) (tt : Nat) (data : List UInt8) (msgsize : Nat) :
    ∀ e ∈ blockEntries k tt data msgsize, e.Tagged := by
  intro e he
  rcases List.mem_append.mp he with he | he
  · split at he
    next =>
      rw [List.mem_singleton.mp he]
      exact fun _ => rfl
    next => exact absurd he List.not_mem_nil
  · split at he
    next =>
      intro hmessage
      rw [tagged_readMessages k _ _ e he] at hmessage
      cases hmessage
    next => exact absurd he List.not_mem_nil

/-- A new entry goes somewhere into the list. -/
theorem sched_perm (msg : StreamEntry) (l : List StreamEntry) :
    (schedStreamMessage msg l).Perm (msg :: l) := by
  induction l with
  | nil => exact List.Perm.refl _
  | cons it next ih =>
    unfold schedStreamMessage
    split
    next => exact (ih.cons it).trans (List.Perm.swap msg it next)
    next => exact List.Perm.refl _

/-- The list stays sorted by time. -/
theorem sched_sorted (msg : StreamEntry) {l : List StreamEntry}
    (h : l.Pairwise fun a b => a.time ≤ b.time) :
    (schedStreamMessage msg l).Pairwise fun a b => a.time ≤ b.time := by
  induction l with
  | nil => exact List.pairwise_singleton _ _
  | cons it next ih =>
    obtain ⟨hhead, htail⟩ := List.pairwise_cons.mp h
    unfold schedStreamMessage
    split
    next hge =>
      refine List.pairwise_cons.mpr ⟨fun e he => ?_, ih htail⟩
      rcases List.mem_cons.mp ((sched_perm msg next).mem_iff.mp he) with rfl | he
      · exact hge
      · exact hhead e he
    next hlt =>
      have hle : msg.time ≤ it.time := le_of_not_ge hlt
      refine List.pairwise_cons.mpr ⟨fun e he => ?_, h⟩
      rcases List.mem_cons.mp he with rfl | he
      · exact hle
      · exact le_trans hle (hhead e he)

/-- All entries of a block go into the list, which stays in the order of time. -/
theorem sched_all (es : List StreamEntry) {l : List StreamEntry}
    (h : l.Pairwise fun a b => a.time ≤ b.time) :
    (es.foldl (fun l e => schedStreamMessage e l) l).Pairwise (fun a b => a.time ≤ b.time) ∧
      (es.foldl (fun l e => schedStreamMessage e l) l).Perm (l ++ es) := by
  induction es generalizing l with
  | nil => exact ⟨h, by rw [List.append_nil]; exact List.Perm.refl _⟩
  | cons e es ih =>
    obtain ⟨hsorted, hperm⟩ := ih (sched_sorted e h)
    refine ⟨hsorted, hperm.trans ?_⟩
    exact ((sched_perm e l).append_right es).trans List.perm_middle.symm

/-- What the loop takes and leaves is the list, and it leaves nothing that is due. -/
theorem takeDue_spec (p : Int) (n : Nat) {l : List StreamEntry}
    (h : l.Pairwise fun a b => a.time ≤ b.time) :
    (takeDue p n l).1 ++ (takeDue p n l).2 = l ∧
      (0 < n → ∀ e ∈ (takeDue p n l).2, ((p + n : Int) : ℚ) ≤ e.time + 1 / 2) := by
  induction l with
  | nil => exact ⟨rfl, nofun⟩
  | cons it next ih =>
    obtain ⟨hhead, htail⟩ := List.pairwise_cons.mp h
    -- If the first entry stays, so do the others, as they are not earlier.
    have hstop : ((p + n : Int) : ℚ) ≤ it.time + 1 / 2 →
        ∀ e ∈ it :: next, ((p + n : Int) : ℚ) ≤ e.time + 1 / 2 := by
      intro hit e he
      rcases List.mem_cons.mp he with rfl | he
      · exact hit
      · have := hhead e he
        linarith
    unfold takeDue
    split
    next hdue =>
      split
      next hoffset =>
        refine ⟨rfl, fun hpos => hstop ?_⟩
        have hle : (n : Int) ≤ trunc (it.time - p + 1 / 2) := hoffset
        unfold trunc at hle
        split at hle
        next =>
          have := Int.le_floor.mp hle
          push_cast at this ⊢
          linarith
        next hneg =>
          have := Int.floor_nonneg.mpr (show 0 ≤ -(it.time - (p : ℚ) + 1 / 2) by linarith)
          omega
      next => exact ⟨congrArg _ (ih htail).1, (ih htail).2⟩
    next hdue =>
      refine ⟨rfl, fun _ => hstop ?_⟩
      push_cast at hdue ⊢
      linarith

/-- What a run keeps: entries are sorted, and each was scheduled and is in the list or was
taken from it. -/
structure SinkMessages.Inv (s : SinkMessages) : Prop where
  sorted : s.streamMessages.Pairwise fun a b => a.time ≤ b.time
  all : (s.taken.map Prod.fst ++ s.streamMessages).Perm s.scheduled
  tagged : ∀ e ∈ s.scheduled, e.Tagged

/-- Every step keeps the list in order. -/
theorem SinkMessages.Inv.step {s : SinkMessages} (h : s.Inv) (a : SinkMessageAction) :
    (s.step a).Inv := by
  cases a with
  | tryDecodeBlock k tt data msgsize =>
    obtain ⟨hsorted, hperm⟩ := sched_all (blockEntries k tt data msgsize) h.sorted
    refine ⟨hsorted, ?_, fun e he => ?_⟩
    · refine (hperm.append_left (s.taken.map Prod.fst)).trans ?_
      rw [← List.append_assoc]
      exact h.all.append_right _
    · rcases List.mem_append.mp he with he | he
      · exact h.tagged e he
      · exact tagged_blockEntries k tt data msgsize e he
  | dispatchStreamMessages nsamples =>
    obtain ⟨hsplit, -⟩ := takeDue_spec s.processSamples nsamples h.sorted
    have hfst : ((takeDue s.processSamples nsamples s.streamMessages).1.map
        (·, s.processSamples)).map Prod.fst =
        (takeDue s.processSamples nsamples s.streamMessages).1 := by
      rw [List.map_map]
      exact List.map_id _
    refine ⟨?_, ?_, h.tagged⟩
    · have := h.sorted
      rw [← hsplit] at this
      exact (List.pairwise_append.mp this).2.1
    · show ((s.taken ++ (takeDue s.processSamples nsamples s.streamMessages).1.map
        (·, s.processSamples)).map Prod.fst ++
          (takeDue s.processSamples nsamples s.streamMessages).2).Perm s.scheduled
      rw [List.map_append, hfst, List.append_assoc, hsplit]
      exact h.all
  | skipXRun nsamples => exact ⟨h.sorted, h.all, h.tagged⟩
  | resetStream => exact ⟨List.Pairwise.nil, List.Perm.refl _, nofun⟩

/-- So it is in order in every run. -/
theorem SinkMessages.inv_run (as : List SinkMessageAction) :
    (as.foldl SinkMessages.step {}).Inv := by
  suffices hrun : ∀ (as : List SinkMessageAction) (s : SinkMessages), s.Inv →
      (as.foldl SinkMessages.step s).Inv from
    hrun as {} ⟨List.Pairwise.nil, List.Perm.refl _, nofun⟩
  intro as
  induction as with
  | nil => exact fun s h => h
  | cons a as ih => exact fun s h => ih (s.step a) (h.step a)

/-- **Stream messages**: in every run of a source, the messages of a block are scheduled by the sink
with the same contents if and only if none in the priority queue is outdated and the fields
of each fit in 16 bits. In every run of a sink, each entry is taken from the list once,
at the latest when process time has passed it, and the user gets it if and only if it is not late
and no message with the type of a time tag. -/
theorem stream_messages_iff (as : List MessageAction) (q : MessageQueues) (t : BlockTiming)
    (k : DecodeTiming) (b : Block) :
    (q = as.foldl MessageQueues.step {} → b.message = encodeMessages t (q.sendBlock t).2 →
      (MessagesArrive q t k b ↔
        (∀ m ∈ q.pending, t.start ≤ m.time) ∧
          ∀ m ∈ q.pending ++ q.messageQueue, t.contains m = true → m.Fits t)) ∧
    ∀ (as : List SinkMessageAction) (s : SinkMessages), s = as.foldl SinkMessages.step {} →
      (s.taken.map Prod.fst ++ s.streamMessages).Perm s.scheduled ∧
      (∀ x ∈ s.taken, x.1.dispatch x.2 = some (x.1.expected x.2) ↔
        0 ≤ x.1.offset x.2 ∧ ¬ (x.1.isMessage = true ∧ x.1.type = kAooDataStreamTime)) ∧
      ∀ nsamples, 0 < nsamples →
        ∀ e ∈ (s.step (.dispatchStreamMessages nsamples)).streamMessages,
          ((s.processSamples + nsamples : Int) : ℚ) ≤ e.time + 1 / 2 := by
  constructor
  · rintro rfl hb
    exact messagesArrive_iff (run_pending as).1 (run_pending as).2 t k hb
  · rintro as s rfl
    have hinv := SinkMessages.inv_run as
    refine ⟨hinv.all, fun x hx => ?_, fun nsamples hpos => ?_⟩
    · refine dispatch_eq_iff (hinv.tagged x.1 (hinv.all.mem_iff.mp ?_)) x.2
      exact List.mem_append_left _ (List.mem_map_of_mem hx)
    · exact (takeDue_spec _ nsamples hinv.sorted).2 hpos

/-- The first block of a stream, without resampling. -/
def firstBlock : BlockTiming where
  streamSamples := 0
  ratio := 1
  blockSize := 64
  stream_nonneg := le_refl 0
  ratio_pos := one_pos

/-- A message at sample 3. -/
def shortMessage (channel type : Int) : StreamMessage :=
  ⟨3, channel, type, [104, 105], by decide, by decide⟩

/-- A source with that message for the first block. -/
def oneMessage (channel type : Int) : MessageQueues :=
  [MessageAction.addStreamMessage .start 0 ⟨3, channel, type, [104, 105]⟩].foldl
    MessageQueues.step {}

theorem length_shortMessage (channel type : Int) :
    (encodeMessages firstBlock [shortMessage channel type]).length = 16 := by
  rw [encodeMessages, if_pos (by rw [List.length_singleton]; decide),
    List.length_append, toBytes_length, List.flatMap_cons,
    List.flatMap_nil, List.append_nil, record_length]
  show 4 + (8 + pad4 2) = 16
  decide

/-- The block with that message. -/
def messageBlock (channel type : Int) : Block where
  tt := 0
  samplerate := 0
  sourceTimestamp := 0
  absoluteSamplePosition := 0
  message := encodeMessages firstBlock [shortMessage channel type]
  audio := []
  tt_lt := by decide
  samplerate_lt := by decide
  message_pad := by rw [length_shortMessage]
  size_lt := by rw [length_shortMessage]; decide

/-- A sink without resampling. -/
def firstDecode : DecodeTiming := ⟨0, 1, 0, one_pos⟩

/-- A sink that decodes the block and dispatches it. -/
def oneDispatch (channel type : Int) : SinkMessages :=
  [SinkMessageAction.tryDecodeBlock firstDecode 0 (messageBlock channel type).content 16,
    .dispatchStreamMessages 64].foldl SinkMessages.step {}

/-- A message of type 1 on channel 2 is scheduled and reaches the user. -/
theorem shortMessage_arrives :
    MessagesArrive (oneMessage 2 1) firstBlock firstDecode (messageBlock 2 1) ∧
    ∃ x ∈ (oneDispatch 2 1).taken,
      x.1.dispatch x.2 = some (.message 3 2 1 2 (.message [104, 105])) := by
  obtain ⟨hsource, hsink⟩ := stream_messages_iff
    [.addStreamMessage .start 0 ⟨3, 2, 1, [104, 105]⟩] (oneMessage 2 1) firstBlock firstDecode
    (messageBlock 2 1)
  constructor
  · refine (hsource rfl ?_).mpr ?_
    · show encodeMessages firstBlock [shortMessage 2 1] = _
      congr 1
      decide +kernel
    · refine ⟨fun m hm => absurd hm List.not_mem_nil, fun m hm _ => ?_⟩
      have hmem : m = shortMessage 2 1 := List.mem_singleton.mp hm
      rw [hmem]
      exact ⟨by decide +kernel, by decide, by decide⟩
  · obtain ⟨-, hdispatch, -⟩ := hsink _ (oneDispatch 2 1) rfl
    obtain ⟨x, hx, hexpected, hgood⟩ : ∃ x ∈ (oneDispatch 2 1).taken,
        x.1.expected x.2 = .message 3 2 1 2 (.message [104, 105]) ∧
        0 ≤ x.1.offset x.2 ∧ ¬ (x.1.isMessage = true ∧ x.1.type = kAooDataStreamTime) := by
      decide +kernel
    exact ⟨x, hx, ((hdispatch x hx).mpr hgood).trans (congrArg some hexpected)⟩

/-- A message on channel 40000 arrives on another channel, and a message of type -1 (unspecified)
becomes a stream time event. -/
theorem messages_changed :
    ¬ MessagesArrive (oneMessage 40000 1) firstBlock firstDecode (messageBlock 40000 1) ∧
    ∃ x ∈ (oneDispatch 2 (-1)).taken,
      x.1.dispatch x.2 = some (.streamTimeEvent 3 (.message [104, 105])) := by
  constructor
  · intro h
    have hb : (messageBlock 40000 1).message =
        encodeMessages firstBlock ((oneMessage 40000 1).sendBlock firstBlock).2 := by
      show encodeMessages firstBlock [shortMessage 40000 1] = _
      congr 1
      decide +kernel
    have hfits := ((messagesArrive_iff (run_pending _).1 (run_pending _).2 firstBlock firstDecode
      hb).mp h).2
      (shortMessage 40000 1) (List.mem_singleton.mpr rfl) (by decide +kernel)
    exact absurd hfits.channel.2 (by decide)
  · decide +kernel

end Aoo.Stream
