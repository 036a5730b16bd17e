import Aoo.Stream.Clock

/-!
# The place of a message in the stream

`addStreamMessage` gives a message a sample time, and `send_data` writes it in front of the block
that covers this time. Between the two the message waits, first in `message_queue_`, then in
`message_prio_queue_`. Only on the way from one to the other it is asked whether its time has
passed. But `send_xruns` moves the stream on while messages wait in the second, and what has been
passed there is written with a negative offset, in an unsigned field of 16 bits.

`MessageStream` is a running stream with both clocks and both queues, and with a record of what was
accepted and what was written.

**Main result** (`placed_iff`): in every run, messages leave in the order of time and insertion and
none is lost before its time. The offset that is written is the one in the block, exactly if
no message of the second queue has been passed when a block is made, and all offsets fit in
16 bits.
-/

namespace Aoo.Stream

open Lib

/-! ## The stream -/

/-- What `send_data` did with the messages for a block: which it wrote, and which it
skipped. -/
structure BlockMessages where
  timing : BlockTiming
  messages : List StreamMessage
  skipped : List StreamMessage

/-- A running stream. `accepted` and `blocks` are a record. -/
structure MessageStream where
  clock : SourceClock
  queues : MessageQueues
  accepted : List StreamMessage
  blocks : List BlockMessages
  stream_nonneg : 0 ≤ clock.streamSamples

/-- The offset on the wire. -/
def StreamMessage.wireOffset (m : StreamMessage) (t : BlockTiming) : Nat :=
  unsigned 65536 (trunc (t.offset m.time))

/-! ## Stream time -/

namespace SourceClock

variable (c : ClockConfig)

/-- Draining the resampler does not move the stream. -/
theorem drainResampler_streamSamples (n : Nat) : ∀ s : SourceClock,
    (drainResampler c n s).2.streamSamples = s.streamSamples := by
  induction n with
  | zero => exact fun s => rfl
  | succ n ih =>
    intro s
    rw [drainResampler]
    split
    next => rfl
    next => exact ih _

/-- Neither does filling it. -/
theorem fillResampler_streamSamples (nsamples fuel : Nat) : ∀ s : SourceClock,
    (fillResampler c nsamples fuel s).2.streamSamples = s.streamSamples := by
  induction fuel with
  | zero => exact fun s => rfl
  | succ fuel ih =>
    intro s
    unfold fillResampler
    split
    next => rfl
    next =>
      dsimp only
      split
      next => exact (ih _).trans (drainResampler_streamSamples c _ s)
      next => exact drainResampler_streamSamples c _ s

/-- Samples that are queued have not been sent. -/
theorem queueSamples_streamSamples (s : SourceClock) (nsamples : Nat) :
    (queueSamples c s nsamples).2.streamSamples = s.streamSamples := by
  have hfill := fillResampler_streamSamples c nsamples (s.writeAvailable c + 1) s
  rw [queueSamples]
  split
  next => split <;> rfl
  next =>
    dsimp only
    split
    next => rw [drainResampler_streamSamples, hfill]
    next => exact hfill

/-- So `process` leaves the position of the stream to `send`. -/
theorem process_streamSamples (s : SourceClock) (nsamples : Nat) (locked : Bool) :
    (s.process c nsamples locked).2.streamSamples = s.streamSamples := by
  rw [process]
  split
  next => rfl
  next => exact queueSamples_streamSamples c _ nsamples

/-- So does `process` with a position. -/
theorem processLowLatency_streamSamples (s : SourceClock) (nsamples : Nat) (locked : Bool)
    (position : Nat) :
    (s.processLowLatency c nsamples locked position).2.streamSamples = s.streamSamples := by
  have hprocess := process_streamSamples c
    { s with nextInputSamplePosition := position, hasInputTiming := true } nsamples locked
  rw [processLowLatency]
  dsimp only
  split
  next => exact hprocess
  next => exact hprocess

/-- Empty blocks do not count as samples of the stream. -/
theorem sendEmptyBlocks_streamSamples (n : Nat) : ∀ s : SourceClock,
    (sendEmptyBlocks c n s).streamSamples = s.streamSamples := by
  induction n with
  | zero => exact fun s => rfl
  | succ n ih =>
    intro s
    rw [sendEmptyBlocks]
    split
    next => rfl
    next => rw [ih]

/-- Xruns only move the stream on. -/
theorem le_sendXruns (s : SourceClock) (sinks : Bool) :
    s.streamSamples ≤ (s.sendXruns c sinks).streamSamples := by
  rw [sendXruns]
  split
  next hmany =>
    have hxruns : 0 ≤ s.xrunblocks * convert c :=
      mul_nonneg (le_trans (by norm_num) hmany.le) (convert_pos c).le
    have hblocks : (0 : ℚ) ≤ s.streamBlocks c := by exact_mod_cast Int.floor_nonneg.mpr hxruns
    have hadvance : s.streamSamples ≤
        s.streamSamples + s.streamBlocks c / convert c * c.blocksize :=
      le_add_of_nonneg_right
        (mul_nonneg (div_nonneg hblocks (convert_pos c).le) (Nat.cast_nonneg _))
    dsimp only
    split
    next =>
      rw [sendEmptyBlocks_streamSamples]
      exact hadvance
    next => exact hadvance
  next => exact le_refl _

/-- A block moves stream time on to its deadline. -/
theorem sendBlock_streamSamples (s : SourceClock) (encoded : Bool)
    (hqueue : s.audioQueue.isEmpty = false) :
    (s.sendBlock c encoded).streamSamples = s.streamSamples + c.blockSize / c.ratio := by
  rw [sendBlock]
  split
  next hnone =>
    rw [hnone] at hqueue
    cases hqueue
  next =>
    dsimp only
    split <;> rfl

/-- Stream time does not go back. -/
theorem streamSamples_le_step (s : SourceClock) (a : Action) :
    s.streamSamples ≤ (s.step c a).streamSamples := by
  cases a with
  | process nsamples locked => exact (process_streamSamples c s nsamples locked).ge
  | processLowLatency nsamples locked position =>
    exact (processLowLatency_streamSamples c s nsamples locked position).ge
  | handleXrun nsamples => exact le_refl _
  | sendXruns sinks => exact le_sendXruns c s sinks
  | sendBlock encoded =>
    cases hqueue : s.audioQueue.isEmpty with
    | true =>
      have heq : s.sendBlock c encoded = s := by
        rw [sendBlock, List.isEmpty_iff.mp hqueue]
      exact (congrArg streamSamples heq).ge
    | false =>
      rw [step, sendBlock_streamSamples c s encoded hqueue]
      exact le_add_of_nonneg_right (div_nonneg (Nat.cast_nonneg _) c.ratio_pos.le)

end SourceClock

/-! ## The offset in a block -/

namespace BlockTiming

variable (t : BlockTiming)

/-- A block ends with the samples that still fit in it. -/
theorem offset_lt {m : StreamMessage} (h : m.time < t.stop) : t.offset m.time < t.blockSize := by
  have hle : m.sampleTime ≤ m.time := signed_le m.time_lt
  have hstop : m.sampleTime + 1 ≤ ⌊t.deadline⌋ := by
    unfold stop at h
    omega
  have hdeadline : (m.sampleTime : ℚ) + 1 ≤ t.streamSamples + t.blockSize / t.ratio := by
    have hle : ((m.sampleTime + 1 : Int) : ℚ) ≤ t.deadline := Int.le_floor.mp hstop
    push_cast at hle
    exact hle
  have hstart : t.streamSamples < t.start + 1 := Int.lt_floor_add_one _
  have hlt : ((m.sampleTime : ℚ) - t.start) < t.blockSize / t.ratio := by linarith
  rw [offset_eq]
  push_cast
  exact (lt_div_iff₀ t.ratio_pos).mp hlt

/-- An offset is not negative if the message is not before the block. -/
theorem offset_nonneg_iff (m : StreamMessage) : 0 ≤ t.offset m.time ↔ t.start ≤ m.sampleTime := by
  rw [offset_eq, mul_nonneg_iff_of_pos_right t.ratio_pos, Int.cast_nonneg_iff]
  exact Int.sub_nonneg

/-- The field has the offset exactly if the sample has not been passed, and 16 bits are
enough. -/
theorem wireOffset_iff (m : StreamMessage) (h : m.time < t.stop) :
    (m.wireOffset t : Int) = ⌊t.offset m.time⌋ ∧ m.wireOffset t < t.blockSize ↔
      t.start ≤ m.sampleTime ∧ ⌊t.offset m.time⌋ < 65536 := by
  have hfloor : ⌊t.offset m.time⌋ < t.blockSize := by
    rw [Int.floor_lt]
    exact_mod_cast t.offset_lt h
  constructor
  · rintro ⟨heq, -⟩
    have hsmall : m.wireOffset t < 65536 := unsigned_lt (by decide) _
    refine ⟨(t.offset_nonneg_iff m).mp (Int.floor_nonneg.mp ?_), ?_⟩
    · rw [← heq]
      exact Int.natCast_nonneg _
    · omega
  · rintro ⟨hstart, hsmall⟩
    have hoffset := (t.offset_nonneg_iff m).mpr hstart
    have heq : (m.wireOffset t : Int) = ⌊t.offset m.time⌋ := by
      rw [StreamMessage.wireOffset, trunc, if_pos hoffset]
      exact unsigned_of_lt (Int.floor_nonneg.mpr hoffset) hsmall
    refine ⟨heq, ?_⟩
    omega

end BlockTiming

namespace MessageStream

/-- The stream starts at zero. -/
theorem start_nonneg (c : ClockConfig) : 0 ≤ (SourceClock.start c).streamSamples := le_refl _

/-- A new stream. Messages that were added before its first block are there already. -/
def start (c : ClockConfig) (messageQueue : List StreamMessage) : MessageStream where
  clock := SourceClock.start c
  queues := { messageQueue }
  accepted := messageQueue
  blocks := []
  stream_nonneg := start_nonneg c

/-- The next block. -/
def timing (c : ClockConfig) (s : MessageStream) : BlockTiming where
  streamSamples := s.clock.streamSamples
  ratio := c.ratio
  blockSize := c.blockSize
  stream_nonneg := s.stream_nonneg
  ratio_pos := c.ratio_pos

/-- `send_data` makes a block, if there is one in the audio queue. -/
def makesBlock (s : MessageStream) : SourceClock.Action → Bool
  | .sendBlock _ => !s.clock.audioQueue.isEmpty
  | _ => false

end MessageStream

/-- What happens to a running stream. -/
inductive MessageStreamAction
  | addStreamMessage (message : AooStreamMessage)
  | clock (a : SourceClock.Action)

namespace MessageStream

/-- The messages of a block are written whether it is sent or, without sinks, dropped. -/
def step (c : ClockConfig) (s : MessageStream) : MessageStreamAction → MessageStream
  | .addStreamMessage message =>
    match Stream.addStreamMessage .run s.clock.processSamples message with
    | .ok m =>
      { s with
        queues := { s.queues with messageQueue := s.queues.messageQueue ++ [m] }
        accepted := s.accepted ++ [m] }
    | .error _ => s
  | .clock a =>
    let t := s.timing c
    let s' := { s with
      clock := s.clock.step c a
      stream_nonneg := s.stream_nonneg.trans (s.clock.streamSamples_le_step c a) }
    if s.makesBlock a then
      { s' with
        queues := (s.queues.sendBlock t).1
        blocks := s.blocks ++ [⟨t, (s.queues.sendBlock t).2,
          s.queues.messageQueue.filter fun m => decide (m.sampleTime - t.start < 0)⟩] }
    else s'

/-- All that was written, block after block. -/
def written (s : MessageStream) : List StreamMessage := s.blocks.flatMap BlockMessages.messages

def skipped (s : MessageStream) : List StreamMessage := s.blocks.flatMap BlockMessages.skipped

/-- What is in the queues. -/
def waiting (s : MessageStream) : List StreamMessage :=
  s.queues.messagePrioQueue.objects ++ s.queues.messageQueue

/-- Messages are placed in the block that covers them. -/
structure Placed (s : MessageStream) : Prop where
  offset : ∀ b ∈ s.blocks, ∀ m ∈ b.messages,
    (m.wireOffset b.timing : Int) = ⌊b.timing.offset m.time⌋ ∧
      m.wireOffset b.timing < b.timing.blockSize
  sorted : s.written.Pairwise fun a b => a.time ≤ b.time
  stable : ∀ k, (s.written.filter (·.time = k)).Sublist (s.accepted.filter (·.time = k))
  kept : s.accepted.Perm (s.written ++ (s.waiting ++ s.skipped))
  passed : ∀ b ∈ s.blocks, ∀ m ∈ b.skipped, m.sampleTime < b.timing.start

/-- When a block is made, no message of the priority queue has been passed, and the offsets in the
block fit in 16 bits. -/
def Punctual (c : ClockConfig) (s : MessageStream) : MessageStreamAction → Prop
  | .addStreamMessage _ => True
  | .clock a =>
    s.makesBlock a = true →
      (∀ m ∈ s.queues.messagePrioQueue.objects, (s.timing c).start ≤ m.time) ∧
        ∀ m ∈ s.waiting, (s.timing c).contains m = true → ⌊(s.timing c).offset m.time⌋ < 65536

/-! ## A block -/

/-- A message is skipped, or goes to the other queue. -/
theorem mem_consumed {q : MessageQueues} {t : BlockTiming} {m : StreamMessage} :
    m ∈ q.pending ++ q.messageQueue.filter (fun m => decide (t.start ≤ m.sampleTime)) ↔
      m ∈ q.pending ∨ m ∈ q.messageQueue ∧ t.start ≤ m.sampleTime := by
  rw [List.mem_append, List.mem_filter, decide_eq_true_eq]

/-- All new messages are taken, or dropped where they are late. -/
theorem consumeAll_messageQueue (q : MessageQueues) (t : BlockTiming) :
    (q.consumeAll t).messageQueue = [] := by
  have hloop : ∀ (ms : List StreamMessage) (q : MessageQueues),
      (ms.foldl (fun q m =>
        if m.sampleTime - t.start < 0 then q
        else
          { q with
            messagePrioQueue := q.messagePrioQueue.push streamMessageComp m
            pending := q.pending ++ [m] }) q).messageQueue = q.messageQueue := by
    intro ms
    induction ms with
    | nil => exact fun q => rfl
    | cons m ms ih =>
      intro q
      rw [List.foldl_cons, ih]
      split <;> rfl
  exact hloop q.messageQueue { q with messageQueue := [] }

/-- What `send_data` leaves behind, and what it writes. -/
structure Made (q : MessageQueues) (t : BlockTiming) : Prop where
  written : Ordered StreamMessage.time
    ((q.pending ++ q.messageQueue.filter (fun m => decide (t.start ≤ m.sampleTime))).filter
      fun m => decide (m.time < t.stop)) (q.sendBlock t).2
  pending : (q.sendBlock t).1.pending =
    (q.pending ++ q.messageQueue.filter (fun m => decide (t.start ≤ m.sampleTime))).filter
      fun m => !decide (m.time < t.stop)
  messageQueue : (q.sendBlock t).1.messageQueue = []
  holds : (q.sendBlock t).1.messagePrioQueue.Holds StreamMessage.time (q.sendBlock t).1.pending

/-- A block takes the messages before its end. -/
theorem made {q : MessageQueues} (h : q.messagePrioQueue.Holds StreamMessage.time q.pending)
    (t : BlockTiming) : Made q t := by
  obtain ⟨hwritten, hholds⟩ := sendBlock_spec h t
  refine ⟨hwritten, ?_, consumeAll_messageQueue q t, hholds⟩
  rw [← (consumeAll_spec h t).2]
  rfl

/-- It takes no other messages. -/
theorem Made.mem_iff {q : MessageQueues} {t : BlockTiming} (h : Made q t) {m : StreamMessage} :
    m ∈ (q.sendBlock t).2 ↔
      (m ∈ q.pending ∨ m ∈ q.messageQueue ∧ t.start ≤ m.sampleTime) ∧ m.time < t.stop := by
  rw [h.written.mem_iff, List.mem_filter, mem_consumed, decide_eq_true_eq]

/-- Whatever was there is written, waits or is skipped. -/
theorem Made.perm {q : MessageQueues} {t : BlockTiming} (h : Made q t) :
    (q.pending ++ q.messageQueue).Perm ((q.sendBlock t).2 ++ ((q.sendBlock t).1.pending ++
      q.messageQueue.filter fun m => decide (m.sampleTime - t.start < 0))) := by
  have hdue := List.filter_append_perm (fun m : StreamMessage => decide (m.time < t.stop))
    (q.pending ++ q.messageQueue.filter (fun m => decide (t.start ≤ m.sampleTime)))
  have hold := List.filter_append_perm (fun m : StreamMessage => decide (t.start ≤ m.sampleTime))
    q.messageQueue
  have hskipped : q.messageQueue.filter (fun m => decide (m.sampleTime - t.start < 0)) =
      q.messageQueue.filter (fun m => !decide (t.start ≤ m.sampleTime)) := by
    apply List.filter_congr
    intro m _
    rw [← decide_not, decide_eq_decide]
    omega
  rw [hskipped, h.pending]
  rw [List.perm_iff_count] at hdue hold ⊢
  intro m
  have hwritten := (List.perm_iff_count.mp h.written.perm) m
  have hdue := hdue m
  have hold := hold m
  simp only [List.count_append] at hdue hold hwritten ⊢
  omega

/-- Messages with the same time stay in order. -/
theorem Made.filter_time {q : MessageQueues} {t : BlockTiming} (h : Made q t) (k : Nat) :
    ((q.sendBlock t).2.filter (·.time = k) ++
      (q.sendBlock t).1.pending.filter (·.time = k)).Sublist
      (q.pending.filter (·.time = k) ++ q.messageQueue.filter (·.time = k)) := by
  rw [h.written.stable k, h.pending, Ordered.filter_split StreamMessage.time, List.filter_append]
  exact (List.filter_sublist.filter _).append_left _

/-! ## Every step -/

/-- All that was accepted is written, waiting or skipped, and nothing is before the stream. -/
structure Inv (s : MessageStream) : Prop where
  holds : s.queues.messagePrioQueue.Holds StreamMessage.time s.queues.pending
  timed : ∀ m ∈ s.queues.pending, m.sampleTime = m.time
  bound : ∃ d : Nat, (d : Int) ≤ ⌊s.clock.streamSamples⌋ ∧ (∀ m ∈ s.written, m.time < d) ∧
    ∀ m ∈ s.queues.pending, d ≤ m.time
  sorted : s.written.Pairwise fun a b => a.time ≤ b.time
  stable : ∀ k, (s.written.filter (·.time = k) ++ (s.queues.pending.filter (·.time = k) ++
    s.queues.messageQueue.filter (·.time = k))).Sublist (s.accepted.filter (·.time = k))
  kept : s.accepted.Perm
    (s.written ++ (s.queues.pending ++ s.queues.messageQueue ++ s.skipped))
  passed : ∀ b ∈ s.blocks, ∀ m ∈ b.skipped, m.sampleTime < b.timing.start

/-- Nothing has been taken yet. -/
theorem inv_start (c : ClockConfig) (messageQueue : List StreamMessage) :
    (start c messageQueue).Inv where
  holds := PriorityQueue.holds_empty _
  timed := nofun
  bound := ⟨0, Int.floor_nonneg.mpr (le_refl _), nofun, nofun⟩
  sorted := List.Pairwise.nil
  stable k := List.Sublist.refl _
  kept := by
    show messageQueue.Perm (messageQueue ++ [])
    rw [List.append_nil]
  passed := nofun

variable {c : ClockConfig} {s : MessageStream}

/-- A message of the user waits for the next block. -/
theorem Inv.addStreamMessage (h : s.Inv) (message : AooStreamMessage) :
    (s.step c (.addStreamMessage message)).Inv := by
  rw [step]
  split
  next m _ =>
    refine ⟨h.holds, h.timed, h.bound, h.sorted, fun k => ?_, ?_, h.passed⟩
    · show (_ ++ (_ ++ List.filter _ (s.queues.messageQueue ++ [m]))).Sublist
        (List.filter _ (s.accepted ++ [m]))
      rw [List.filter_append, List.filter_append, ← List.append_assoc, ← List.append_assoc]
      have hstable := h.stable k
      rw [← List.append_assoc] at hstable
      exact hstable.append (List.Sublist.refl _)
    · show (s.accepted ++ [m]).Perm
        (s.written ++ (s.queues.pending ++ (s.queues.messageQueue ++ [m]) ++ s.skipped))
      have hkept := h.kept
      rw [List.perm_iff_count] at hkept ⊢
      intro a
      have hcount := hkept a
      simp only [List.count_append] at hcount ⊢
      omega
  next => exact h

/-- The clock goes on, and no block is made. -/
theorem Inv.clock (h : s.Inv) {clock : SourceClock} (hnonneg : 0 ≤ clock.streamSamples)
    (hle : s.clock.streamSamples ≤ clock.streamSamples) :
    Inv { s with clock, stream_nonneg := hnonneg } := by
  obtain ⟨d, hd, hwritten, hpending⟩ := h.bound
  exact ⟨h.holds, h.timed, ⟨d, hd.trans (Int.floor_le_floor hle), hwritten, hpending⟩, h.sorted,
    h.stable, h.kept, h.passed⟩

/-- A block is made when there are samples for it. -/
theorem makesBlock_iff {a : SourceClock.Action} : s.makesBlock a = true ↔
    ∃ encoded, a = .sendBlock encoded ∧ s.clock.audioQueue.isEmpty = false := by
  cases a with
  | sendBlock encoded => simp [makesBlock]
  | _ => simp [makesBlock]

/-- What a block leaves behind is not due before the next one, and what was written before was due
before. -/
theorem Inv.makeBlock (h : s.Inv) {clock : SourceClock} (hnonneg : 0 ≤ clock.streamSamples)
    (hclock : clock.streamSamples = (s.timing c).deadline) :
    Inv { s with
      clock
      stream_nonneg := hnonneg
      queues := (s.queues.sendBlock (s.timing c)).1
      blocks := s.blocks ++ [⟨s.timing c, (s.queues.sendBlock (s.timing c)).2,
        s.queues.messageQueue.filter fun m =>
          decide (m.sampleTime - (s.timing c).start < 0)⟩] } := by
  have hmade := made h.holds (s.timing c)
  have hle := start_le_stop (s.timing c)
  obtain ⟨d, hd, hwritten, hpending⟩ := h.bound
  have hd : (d : Int) ≤ (s.timing c).start := hd
  -- what was written before is due before `d`, and what can be written now is not
  have hfrom {m : StreamMessage} (hm : m ∈ s.queues.pending ∨
      m ∈ s.queues.messageQueue ∧ (s.timing c).start ≤ m.sampleTime) : d ≤ m.time := by
    rcases hm with hm | ⟨-, hm⟩
    · exact hpending m hm
    · have hle : m.sampleTime ≤ m.time := signed_le m.time_lt
      omega
  refine ⟨hmade.holds, sendBlock_timed h.holds h.timed (s.timing c),
    ⟨(s.timing c).stop, ?_, ?_, ?_⟩, ?_, fun k => ?_, ?_, ?_⟩
  · rw [hclock, BlockTiming.stop, Int.toNat_of_nonneg]
    rw [← hclock]
    exact Int.floor_nonneg.mpr hnonneg
  · intro m hm
    rw [written, List.flatMap_append, List.mem_append] at hm
    rcases hm with hm | hm
    · have hlt := hwritten m hm
      omega
    · rw [List.flatMap_singleton] at hm
      exact (hmade.mem_iff.mp hm).2
  · intro m hm
    rw [hmade.pending, List.mem_filter] at hm
    simpa using hm.2
  · rw [written, List.flatMap_append, List.flatMap_singleton, List.pairwise_append]
    refine ⟨h.sorted, hmade.written.sorted, ?_⟩
    intro x hx y hy
    exact (hwritten x hx).le.trans (hfrom (hmade.mem_iff.mp hy).1)
  · rw [written, List.flatMap_append, List.flatMap_singleton, List.filter_append,
      hmade.messageQueue, List.filter_nil, List.append_nil, List.append_assoc]
    exact ((hmade.filter_time k).append_left _).trans (h.stable k)
  · rw [written, skipped, List.flatMap_append, List.flatMap_append, List.flatMap_singleton,
      List.flatMap_singleton, hmade.messageQueue]
    have hperm := hmade.perm
    have hkept := h.kept
    rw [written, skipped] at hkept
    rw [List.perm_iff_count] at hperm hkept ⊢
    intro m
    have hperm := hperm m
    have hkept := hkept m
    simp only [List.count_append, List.count_nil] at hperm hkept ⊢
    omega
  · intro b hb m hm
    rcases List.mem_append.mp hb with hb | hb
    · exact h.passed b hb m hm
    · cases List.mem_singleton.mp hb
      have hlt := of_decide_eq_true (List.mem_filter.mp hm).2
      show m.sampleTime < (s.timing c).start
      omega

/-- Every step keeps the queue in order. -/
theorem Inv.step (h : s.Inv) (a : MessageStreamAction) : (s.step c a).Inv := by
  cases a with
  | addStreamMessage message => exact h.addStreamMessage message
  | clock a =>
    rw [MessageStream.step]
    dsimp only
    split
    next hblock =>
      obtain ⟨encoded, rfl, hqueue⟩ := makesBlock_iff.mp hblock
      exact h.makeBlock _ (s.clock.sendBlock_streamSamples c encoded hqueue)
    next => exact h.clock _ (s.clock.streamSamples_le_step c a)

/-- The offsets of a block are right exactly if the condition holds. -/
theorem offsets_iff (h : s.Inv) :
    (∀ m ∈ (s.queues.sendBlock (s.timing c)).2,
      (m.wireOffset (s.timing c) : Int) = ⌊(s.timing c).offset m.time⌋ ∧
        m.wireOffset (s.timing c) < (s.timing c).blockSize) ↔
      (∀ m ∈ s.queues.messagePrioQueue.objects, (s.timing c).start ≤ m.time) ∧
        ∀ m ∈ s.waiting, (s.timing c).contains m = true →
          ⌊(s.timing c).offset m.time⌋ < 65536 := by
  have hmade := made h.holds (s.timing c)
  have hle := start_le_stop (s.timing c)
  constructor
  · intro hall
    refine ⟨?_, ?_⟩
    · intro m hm
      by_contra hpassed
      -- what has been passed is due, so it is in the block
      have hdue : m.time < (s.timing c).stop := by omega
      have hmem := h.holds.ordered.mem_iff.mp hm
      have hin := hmade.mem_iff.mpr ⟨.inl hmem, hdue⟩
      have hstart := (((s.timing c).wireOffset_iff m hdue).mp (hall m hin)).1
      rw [h.timed m hmem] at hstart
      exact hpassed hstart
    · intro m hm hcontains
      obtain ⟨hstart, hstop⟩ := Bool.and_eq_true_iff.mp hcontains
      have hstart := of_decide_eq_true hstart
      have hstop := of_decide_eq_true hstop
      have hin : m ∈ (s.queues.sendBlock (s.timing c)).2 := by
        apply hmade.mem_iff.mpr
        refine ⟨?_, hstop⟩
        rcases List.mem_append.mp hm with hm | hm
        · exact .inl (h.holds.ordered.mem_iff.mp hm)
        · exact .inr ⟨hm, hstart⟩
      exact (((s.timing c).wireOffset_iff m hstop).mp (hall m hin)).2
  · rintro ⟨hpunctual, hsmall⟩ m hm
    obtain ⟨hm, hstop⟩ := hmade.mem_iff.mp hm
    have hstart : (s.timing c).start ≤ m.sampleTime := by
      rcases hm with hm | hm
      · rw [h.timed m hm]
        exact hpunctual m (h.holds.ordered.mem_iff.mpr hm)
      · exact hm.2
    apply ((s.timing c).wireOffset_iff m hstop).mpr
    refine ⟨hstart, hsmall m ?_ ?_⟩
    · rcases hm with hm | hm
      · exact List.mem_append_left _ (h.holds.ordered.mem_iff.mpr hm)
      · exact List.mem_append_right _ hm.1
    · exact Bool.and_eq_true_iff.mpr ⟨decide_eq_true hstart, decide_eq_true hstop⟩

/-- All offsets that were written are right. -/
def Offsets (s : MessageStream) : Prop :=
  ∀ b ∈ s.blocks, ∀ m ∈ b.messages,
    (m.wireOffset b.timing : Int) = ⌊b.timing.offset m.time⌋ ∧
      m.wireOffset b.timing < b.timing.blockSize

/-- A step places all messages if they come in time. -/
theorem offsets_step (h : s.Inv) (a : MessageStreamAction) :
    (s.step c a).Offsets ↔ s.Offsets ∧ Punctual c s a := by
  cases a with
  | addStreamMessage message =>
    have hblocks : (s.step c (.addStreamMessage message)).blocks = s.blocks := by
      rw [MessageStream.step]
      split <;> rfl
    rw [Offsets, hblocks, Punctual, and_true]
    rfl
  | clock a =>
    rw [MessageStream.step, Punctual]
    dsimp only
    split
    next hblock =>
      rw [forall_prop_of_true hblock, ← offsets_iff h, Offsets, Offsets]
      simp only [List.mem_append, List.mem_singleton]
      constructor
      · intro hall
        exact ⟨fun b hb => hall b (.inl hb), hall _ (.inr rfl)⟩
      · rintro ⟨hold, hnew⟩ b (hb | rfl)
        · exact hold b hb
        · exact hnew
    next hblock =>
      rw [forall_prop_of_false hblock, and_true]
      rfl

/-! ## Runs -/

/-- Messages are where they should be if all offsets are right. -/
theorem Inv.placed_iff_offsets (h : s.Inv) : s.Placed ↔ s.Offsets := by
  constructor
  · exact fun hplaced => hplaced.offset
  · intro hoffsets
    refine ⟨hoffsets, h.sorted, fun k => ?_, ?_, h.passed⟩
    · exact (List.sublist_append_left _ _).trans (h.stable k)
    · have hobjects := h.holds.ordered.perm
      have hkept := h.kept
      rw [waiting]
      rw [List.perm_iff_count] at hobjects hkept ⊢
      intro m
      have hobjects := hobjects m
      have hkept := hkept m
      simp only [List.count_append] at hobjects hkept ⊢
      omega

/-- The queue is in order in every run. -/
theorem run_inv (as : List MessageStreamAction) : ∀ {s : MessageStream}, s.Inv →
    (as.foldl (step c) s).Inv := by
  induction as with
  | nil => exact id
  | cons a as ih =>
    intro s h
    exact ih (h.step a)

/-- A run places all messages if and only if each comes in time. -/
theorem run_offsets (as : List MessageStreamAction) : ∀ {s : MessageStream}, s.Inv →
    ((as.foldl (step c) s).Offsets ↔ s.Offsets ∧ StepsAll (step c) (Punctual c) s as) := by
  induction as with
  | nil => exact fun _ => (and_iff_left trivial).symm
  | cons a as ih =>
    intro s h
    rw [List.foldl_cons, StepsAll, ih (h.step a), offsets_step h a, and_assoc]

/-- **Where messages go**: in every run of a stream, whatever was added before its first block,
messages leave in the order of time and insertion and only those are skipped whose time has
passed; and the offsets that are written are those in the block exactly if the run is
punctual. -/
theorem placed_iff : ∀ (c : ClockConfig) (messageQueue : List StreamMessage)
    (as : List MessageStreamAction),
    (as.foldl (step c) (start c messageQueue)).Placed ↔
      StepsAll (step c) (Punctual c) (start c messageQueue) as := by
  intro c messageQueue as
  have h := inv_start c messageQueue
  have hnone : (start c messageQueue).Offsets := nofun
  rw [(run_inv as h).placed_iff_offsets, run_offsets as h]
  exact and_iff_right hnone

/-- A message for sample 100 waits in the priority queue while two blocks are reported as xruns. -/
def passedByXruns : List MessageStreamAction :=
  [.addStreamMessage ⟨100, 0, 0, []⟩, .clock (.process 64 false), .clock (.sendBlock true),
    .clock (.handleXrun 128), .clock (.process 64 false), .clock (.sendXruns true),
    .clock (.sendBlock true)]

/-- It is written with the offset -92, which is 65444 on the wire. -/
theorem passed_offset :
    let s := passedByXruns.foldl (step (SourceClock.plainConfig 4))
      (start (SourceClock.plainConfig 4) [])
    (∃ b ∈ s.blocks, ∃ m ∈ b.messages, ⌊b.timing.offset m.time⌋ = -92 ∧
      m.wireOffset b.timing = 65444) ∧ ¬ s.Placed := by
  intro s
  have hpassed : ∃ b ∈ s.blocks, ∃ m ∈ b.messages, ⌊b.timing.offset m.time⌋ = -92 ∧
      m.wireOffset b.timing = 65444 := by
    decide +kernel
  refine ⟨hpassed, ?_⟩
  intro hplaced
  obtain ⟨b, hb, m, hm, hfloor, hwire⟩ := hpassed
  have heq := (hplaced.offset b hb m hm).1
  omega

end MessageStream

end Aoo.Stream
