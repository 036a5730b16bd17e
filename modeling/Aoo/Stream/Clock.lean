import Aoo.Lib.Run
import Aoo.Stream.Messages

/-!
# The clocks of a source

A source counts samples twice. `process_samples_` counts what the user gives to `process()`, in
the audio thread; `stream_samples_` counts what `send_data` and `send_xruns` send, in
the network thread. Between them, samples wait in the resampler (`resampler.cpp`), as blocks in the
audio queue, or as xruns (`xrunblocks_`) that are still to be sent as empty blocks.

`SourceClock` has the state of both threads and a step for each operation, over the rational
numbers. It also has what belongs to the blocks of a low-latency stream: the sample position that
the user gives to `processLowLatency()` and that of the sender. A call that finds a stream started
makes it first (`processNew`, `processLowLatencyNew`).

Main result: `clock_iff`. Each sample is counted once, except that `process()` counts twice those
that do not fit in the send buffer.
-/

namespace Aoo.Stream

open Lib

/-! ## The resampler -/

/-- `AooResampleMethod` -/
inductive ResampleMode
  | hold
  | linear
  | cubic
  deriving DecidableEq, Repr

/-- `dynamic_resampler::resample_method` -/
inductive ResampleMethod
  | none
  | skip
  | hold
  | linear
  | cubic
  deriving DecidableEq, Repr

/-- The setup of a source: that of the user (`blocksize_`, `samplerate_`), of the format
(`blockSize`, `sampleRate`), and the number of blocks in the audio queue. `blockFrames` is that of
the low-latency configuration, if there is one. -/
structure ClockConfig where
  blocksize : Nat
  samplerate : Nat
  blockSize : Nat
  sampleRate : Nat
  fixedBlockSize : Bool
  mode : ResampleMode
  capacity : Nat
  blockFrames : Option Nat
  blocksize_pos : 0 < blocksize
  samplerate_pos : 0 < samplerate
  blockSize_pos : 0 < blockSize
  sampleRate_pos : 0 < sampleRate

namespace ClockConfig

/-- `ideal_ratio_` -/
def ratio (c : ClockConfig) : ℚ := c.sampleRate / c.samplerate

/-- `advance_` -/
def advance (c : ClockConfig) : ℚ := c.samplerate / c.sampleRate

/-- `dynamic_resampler::setup`, with `fixed_sr` as the source always has it. -/
def method (c : ClockConfig) : ResampleMethod :=
  if c.samplerate = c.sampleRate then .none
  else if c.sampleRate < c.samplerate ∧ c.samplerate % c.sampleRate = 0 then .skip
  else
    match c.mode with
    | .hold => .hold
    | .linear => .linear
    | .cubic => .cubic

def bypass (c : ClockConfig) : Bool :=
  c.method = .none && !(!c.fixedBlockSize || c.blocksize ≠ c.blockSize)

/-- `latency_linear`, `latency_cubic`: the frames that are there after a reset. -/
def latency (c : ClockConfig) : Nat :=
  match c.method with
  | .cubic => 2
  | .linear => 1
  | _ => 0

/-- `size_` -/
def size (c : ClockConfig) : Int :=
  let size : Int :=
    if c.ratio < 1 then max c.blocksize (trunc (c.blockSize / c.ratio + 1 / 2))
    else max c.blocksize c.blockSize
  trunc (size * (5 / 2))

/-- `dynamic_resampler::write`: the new balance, if there is space. -/
def write (c : ClockConfig) (balance : ℚ) (nframes : Nat) : Option ℚ :=
  if trunc (c.size - balance) - 1 < nframes then none else some (balance + nframes)

/-- `dynamic_resampler::read`: the new balance, if there are enough frames. -/
def read (c : ClockConfig) (balance : ℚ) (nframes : Nat) : Option ℚ :=
  match c.method with
  | .cubic | .linear | .hold =>
    if balance - c.latency < nframes * c.advance then none else some (balance - nframes * c.advance)
  | .skip =>
    if trunc balance < nframes * trunc c.advance then none
    else some (trunc balance - nframes * trunc c.advance)
  | .none => if trunc balance < nframes then none else some (trunc balance - nframes)

end ClockConfig

/-! ## The source -/

/-- `block_data`, without the audio. -/
structure BlockData where
  absoluteSamplePosition : Nat
  deriving DecidableEq, Repr

/-- A block on the wire: its position and number of frames, and whether it has audio. -/
structure WireBlock where
  position : Nat
  frames : Nat
  audio : Bool
  deriving DecidableEq, Repr

/-- The state of a running stream. The last two fields are not in the source: the sizes of the
`process()` calls that failed with an overflow, and what was sent. -/
structure SourceClock where
  processSamples : Nat
  streamSamples : ℚ
  xrunblocks : ℚ
  balance : ℚ
  audioQueue : List BlockData
  absoluteSamplePosition : Nat
  nextInputSamplePosition : Nat
  hasInputTiming : Bool
  overflows : List Nat
  sent : List WireBlock

/-- The results of `process()` on a running stream. -/
inductive ProcessResult
  | ok
  | idle
  | overflow
  deriving DecidableEq, Repr

namespace SourceClock

/-- `make_new_stream`, with which the first call of `process()` after `startStream()` begins. It also
clears what `process_low_latency` has set for this call. -/
def start (c : ClockConfig) : SourceClock where
  processSamples := 0
  streamSamples := 0
  xrunblocks := 0
  balance := c.latency
  audioQueue := []
  absoluteSamplePosition := 0
  nextInputSamplePosition := 0
  hasInputTiming := false
  overflows := []
  sent := []

/-- `add_xrun` -/
def addXrun (c : ClockConfig) (s : SourceClock) (nsamples : Nat) : SourceClock :=
  { s with
    xrunblocks := s.xrunblocks + nsamples / c.blocksize
    processSamples := s.processSamples + nsamples }

/-- `audio_queue_.write_available()` -/
def writeAvailable (c : ClockConfig) (s : SourceClock) : Nat := c.capacity - s.audioQueue.length

/-- The position of the next block. -/
def position (s : SourceClock) : Nat :=
  if s.hasInputTiming then s.nextInputSamplePosition else s.absoluteSamplePosition

/-- A block is moved from the resampler, which is left with `balance` frames, to the audio queue. -/
def pushBlock (c : ClockConfig) (s : SourceClock) (balance : ℚ) : SourceClock :=
  { s with
    balance
    audioQueue := s.audioQueue ++ [⟨s.position⟩]
    nextInputSamplePosition :=
      if s.hasInputTiming then s.nextInputSamplePosition + c.blockSize
      else s.nextInputSamplePosition }

/-- The lambda `drain_resampler`, with the number of free blocks: whether a block was moved to the
audio queue. -/
def drainResampler (c : ClockConfig) : Nat → SourceClock → Bool × SourceClock
  | 0, s => (false, s)
  | n + 1, s =>
    match c.read s.balance c.blockSize with
    | none => (false, s)
    | some balance => (true, (drainResampler c n (s.pushBlock c balance)).2)

/-- The loop that fills the resampler: whether the samples were written. Each turn fills at least
one block of the audio queue, so it ends before the fuel does. -/
def fillResampler (c : ClockConfig) (nsamples : Nat) : Nat → SourceClock → Bool × SourceClock
  | 0, s => (false, s)
  | fuel + 1, s =>
    match c.write s.balance nsamples with
    | some balance => (true, { s with balance })
    | none =>
      let (success, s') := drainResampler c (s.writeAvailable c) s
      if success then fillResampler c nsamples fuel s' else (false, s')

/-- The send buffer is full. -/
def overflow (c : ClockConfig) (s : SourceClock) (nsamples : Nat) : SourceClock :=
  { s.addXrun c nsamples with overflows := s.overflows ++ [nsamples] }

/-- `process_samples_ += nsamples` -/
def addSamples (s : SourceClock) (nsamples : Nat) : SourceClock :=
  { s with processSamples := s.processSamples + nsamples }

/-- The end of `Source::process`: the samples go to the audio queue or to the resampler. -/
def queueSamples (c : ClockConfig) (s : SourceClock) (nsamples : Nat) :
    ProcessResult × SourceClock :=
  if c.bypass then
    if s.writeAvailable c > 0 then
      (.ok, { s with audioQueue := s.audioQueue ++ [⟨s.position⟩], hasInputTiming := false })
    else (.overflow, s.overflow c nsamples)
  else
    let (written, s') := fillResampler c nsamples (s.writeAvailable c + 1) s
    if written then (.ok, (drainResampler c (s'.writeAvailable c) s').2)
    else (.overflow, s'.overflow c nsamples)

/-- `Source::process` on a running stream with an encoder. `locked`: the update mutex is held by
another thread. -/
def process (c : ClockConfig) (s : SourceClock) (nsamples : Nat) (locked : Bool) :
    ProcessResult × SourceClock :=
  if locked then (.idle, s.addXrun c nsamples)
  else queueSamples c (s.addSamples nsamples) nsamples

/-- `Source::process_low_latency` on a running stream -/
def processLowLatency (c : ClockConfig) (s : SourceClock) (nsamples : Nat) (locked : Bool)
    (absoluteSamplePosition : Nat) : ProcessResult × SourceClock :=
  let (result, s) :=
    process c { s with
      nextInputSamplePosition := absoluteSamplePosition
      hasInputTiming := true } nsamples locked
  if result ≠ .ok then (result, { s with hasInputTiming := false }) else (result, s)

/-- `Source::process` on a stream that is starting, if it gets the mutex for the new stream. -/
def processNew (c : ClockConfig) (nsamples : Nat) (locked : Bool) : ProcessResult × SourceClock :=
  process c (start c) nsamples locked

/-- `Source::process_low_latency` on a stream that is starting. The new stream has the position that
was set, but not the flag that goes with it. -/
def processLowLatencyNew (c : ClockConfig) (nsamples : Nat) (locked : Bool)
    (absoluteSamplePosition : Nat) : ProcessResult × SourceClock :=
  let (result, s) :=
    process c { start c with nextInputSamplePosition := absoluteSamplePosition } nsamples locked
  if result ≠ .ok then (result, { s with hasInputTiming := false }) else (result, s)

/-- The loop of `send_xruns`: empty blocks for a low-latency stream. -/
def sendEmptyBlocks (c : ClockConfig) : Nat → SourceClock → SourceClock
  | 0, s => s
  | n + 1, s =>
    match c.blockFrames with
    | none => s
    | some blockFrames =>
      sendEmptyBlocks c n
        { s with
          absoluteSamplePosition := s.absoluteSamplePosition + blockFrames
          sent := s.sent ++ [⟨s.absoluteSamplePosition, blockFrames, false⟩] }

/-- The number of stream blocks for a process block. -/
def convert (c : ClockConfig) : ℚ := c.ratio * c.blocksize / c.blockSize

/-- The stream blocks for the pending xruns (`XRUN_FLOOR`). -/
def streamBlocks (c : ClockConfig) (s : SourceClock) : Int := ⌊s.xrunblocks * convert c⌋

/-- `send_xruns`. `sinks`: there are active sinks. -/
def sendXruns (c : ClockConfig) (s : SourceClock) (sinks : Bool) : SourceClock :=
  if s.xrunblocks > 1 / 2 then
    let xrunblocks := s.xrunblocks
    let processBlocks := s.streamBlocks c / convert c
    let diff := processBlocks - xrunblocks
    let s' :=
      { s with
        xrunblocks := 0 - diff
        streamSamples := s.streamSamples + processBlocks * c.blocksize }
    if sinks then sendEmptyBlocks c (s.streamBlocks c).toNat s' else s'
  else s

/-- One turn of the loop in `send_data`. `encoded`: there are active sinks, and the encoder does not
fail. -/
def sendBlock (c : ClockConfig) (s : SourceClock) (encoded : Bool) : SourceClock :=
  match s.audioQueue with
  | [] => s
  | b :: queue =>
    let s' :=
      { s with streamSamples := s.streamSamples + c.blockSize / c.ratio, audioQueue := queue }
    match c.blockFrames, encoded with
    | some blockFrames, true =>
      { s' with
        absoluteSamplePosition := b.absoluteSamplePosition + blockFrames
        sent := s'.sent ++ [⟨b.absoluteSamplePosition, blockFrames, true⟩] }
    | _, _ => s'

/-- What happens to a running stream. -/
inductive Action
  | process (nsamples : Nat) (locked : Bool)
  | processLowLatency (nsamples : Nat) (locked : Bool) (absoluteSamplePosition : Nat)
  | handleXrun (nsamples : Nat)
  | sendXruns (sinks : Bool)
  | sendBlock (encoded : Bool)
  deriving DecidableEq, Repr

def step (c : ClockConfig) (s : SourceClock) : Action → SourceClock
  | .process nsamples locked => (s.process c nsamples locked).2
  | .processLowLatency nsamples locked position =>
    (s.processLowLatency c nsamples locked position).2
  | .handleXrun nsamples => s.addXrun c nsamples
  | .sendXruns sinks => s.sendXruns c sinks
  | .sendBlock encoded => s.sendBlock c encoded

/-- The number of samples that `process()` accepts (it asserts this). -/
def Accepts (c : ClockConfig) (nsamples : Nat) : Prop :=
  0 < nsamples ∧ (if c.fixedBlockSize then nsamples = c.blocksize else nsamples ≤ c.blocksize)

/-- Every call of `process()` has an accepted number of samples. -/
def Action.Accepted (c : ClockConfig) : Action → Prop
  | .process nsamples _ | .processLowLatency nsamples _ _ => Accepts c nsamples
  | _ => True

end SourceClock

/-! ## Accounting -/

namespace ClockConfig

variable (c : ClockConfig)

/-- Both sample rates are positive. -/
theorem ratio_pos : 0 < c.ratio :=
  div_pos (Nat.cast_pos.mpr c.sampleRate_pos) (Nat.cast_pos.mpr c.samplerate_pos)

/-- A sample moves the stream by the ratio of the rates. -/
theorem mul_advance (n : Nat) : (n : ℚ) * c.advance = n / c.ratio := by
  have hsample : (c.sampleRate : ℚ) ≠ 0 := Nat.cast_ne_zero.mpr c.sampleRate_pos.ne'
  have huser : (c.samplerate : ℚ) ≠ 0 := Nat.cast_ne_zero.mpr c.samplerate_pos.ne'
  unfold advance ratio
  field_simp

/-- Without resampling, both rates are the same. -/
theorem ratio_of_none (h : c.method = .none) : c.ratio = 1 := by
  have hsame : c.samplerate = c.sampleRate := by
    unfold method at h
    split at h
    next hsame => exact hsame
    next =>
      split at h
      · cases h
      · split at h <;> cases h
  have hne : (c.sampleRate : ℚ) ≠ 0 := Nat.cast_ne_zero.mpr c.sampleRate_pos.ne'
  rw [ratio, hsame, div_self hne]

/-- Samples are skipped only if the factor is an integer. -/
theorem trunc_advance (h : c.method = .skip) : (trunc c.advance : ℚ) = c.advance := by
  have hdvd : c.samplerate % c.sampleRate = 0 := by
    unfold method at h
    split at h
    next => cases h
    next =>
      split at h
      next hskip => exact hskip.2
      next => split at h <;> cases h
  obtain ⟨k, hk⟩ := Nat.dvd_of_mod_eq_zero hdvd
  have hne : (c.sampleRate : ℚ) ≠ 0 := Nat.cast_ne_zero.mpr c.sampleRate_pos.ne'
  have hadvance : c.advance = (k : ℤ) := by
    rw [advance, hk]
    push_cast
    field_simp
  rw [hadvance, trunc, if_pos (by positivity), Int.floor_intCast]

/-- The resampler has a whole number of frames if it does not interpolate. -/
def Whole (balance : ℚ) : Prop :=
  c.method = .none ∨ c.method = .skip → ∃ n : ℤ, balance = n

variable {c}

/-- A whole balance is not rounded. -/
theorem trunc_of_whole {balance : ℚ} (h : ∃ n : ℤ, balance = n) (hpos : 0 ≤ balance) :
    (trunc balance : ℚ) = balance := by
  obtain ⟨n, rfl⟩ := h
  rw [trunc, if_pos hpos, Int.floor_intCast]

/-- A block takes its length in samples of the user out of the resampler, and leaves the frames
of the latency. -/
theorem read_spec {balance balance' : ℚ} {nframes : Nat} (hge : (c.latency : ℚ) ≤ balance)
    (hwhole : c.Whole balance) (h : c.read balance nframes = some balance') :
    balance' = balance - nframes / c.ratio ∧ (c.latency : ℚ) ≤ balance' ∧ c.Whole balance' := by
  have hpos : 0 ≤ balance := le_trans (Nat.cast_nonneg _) hge
  unfold read at h
  rw [← mul_advance]
  -- The methods that interpolate.
  have hinterpolate : c.method ≠ .none → c.method ≠ .skip →
      (if balance - c.latency < nframes * c.advance then none
        else some (balance - nframes * c.advance)) = some balance' →
      balance' = balance - nframes * c.advance ∧ (c.latency : ℚ) ≤ balance' ∧
        c.Whole balance' := by
    intro hnone hskip h
    split at h
    next => cases h
    next hlt =>
      cases h
      refine ⟨rfl, by linarith, ?_⟩
      rintro (h | h)
      · exact absurd h hnone
      · exact absurd h hskip
  cases hmethod : c.method with
  | cubic =>
    rw [hmethod] at h hinterpolate
    exact hinterpolate nofun nofun h
  | linear =>
    rw [hmethod] at h hinterpolate
    exact hinterpolate nofun nofun h
  | hold =>
    rw [hmethod] at h hinterpolate
    exact hinterpolate nofun nofun h
  | skip =>
    have hadvance := c.trunc_advance hmethod
    have hbalance := trunc_of_whole (hwhole (.inr hmethod)) hpos
    have hlatency : c.latency = 0 := by rw [latency, hmethod]
    rw [hmethod] at h
    simp only [] at h
    split at h
    next => cases h
    next hlt =>
      cases h
      have hle : (nframes : ℤ) * trunc c.advance ≤ trunc balance := not_lt.mp hlt
      refine ⟨by rw [hbalance, hadvance], ?_, fun _ => ?_⟩
      · rw [hlatency]
        have : ((nframes * trunc c.advance : ℤ) : ℚ) ≤ trunc balance := by exact_mod_cast hle
        push_cast at this ⊢
        linarith
      · exact ⟨trunc balance - nframes * trunc c.advance, by push_cast; rfl⟩
  | none =>
    have hbalance := trunc_of_whole (hwhole (.inl hmethod)) hpos
    have hlatency : c.latency = 0 := by rw [latency, hmethod]
    rw [mul_advance, c.ratio_of_none hmethod, div_one]
    rw [hmethod] at h
    simp only [] at h
    split at h
    next => cases h
    next hlt =>
      cases h
      have hle : (nframes : ℤ) ≤ trunc balance := not_lt.mp hlt
      refine ⟨by rw [hbalance], ?_, fun _ => ?_⟩
      · rw [hlatency]
        have : (nframes : ℚ) ≤ trunc balance := by exact_mod_cast hle
        push_cast
        linarith
      · exact ⟨trunc balance - nframes, by push_cast; rfl⟩

/-- `write` adds the frames to the balance. -/
theorem write_spec {balance balance' : ℚ} {nframes : Nat} (hge : (c.latency : ℚ) ≤ balance)
    (hwhole : c.Whole balance) (h : c.write balance nframes = some balance') :
    balance' = balance + nframes ∧ (c.latency : ℚ) ≤ balance' ∧ c.Whole balance' := by
  unfold write at h
  split at h
  next => cases h
  next =>
    cases h
    have hpos : (0 : ℚ) ≤ nframes := Nat.cast_nonneg _
    refine ⟨rfl, by linarith, fun hmethod => ?_⟩
    obtain ⟨n, hn⟩ := hwhole hmethod
    exact ⟨n + nframes, by rw [hn]; push_cast; rfl⟩

end ClockConfig

namespace SourceClock

/-- The samples that were processed and not yet sent: queued blocks, the resampler without its
latency, and pending xruns. -/
def waiting (c : ClockConfig) (s : SourceClock) : ℚ :=
  s.audioQueue.length * (c.blockSize / c.ratio) + (s.balance - c.latency) +
    s.xrunblocks * c.blocksize

/-- Each sample is counted once. -/
def Balanced (c : ClockConfig) (s : SourceClock) : Prop :=
  (s.processSamples : ℚ) = s.streamSamples + s.waiting c

/-- What every step keeps: the two clocks differ by the samples that are waiting, and by those that
were counted twice. -/
structure Inv (c : ClockConfig) (s : SourceClock) : Prop where
  total : (s.processSamples : ℚ) = s.streamSamples + s.waiting c + s.overflows.sum
  latency_le : (c.latency : ℚ) ≤ s.balance
  whole : c.Whole s.balance
  xruns : 0 ≤ s.xrunblocks

variable {c : ClockConfig} {s : SourceClock}

/-- A stream starts with the latency of the resampler. -/
theorem inv_start (c : ClockConfig) : (start c).Inv c where
  total := by simp [start, waiting]
  latency_le := le_refl _
  whole := fun _ => ⟨c.latency, by simp [start]⟩
  xruns := le_refl _

/-- An xrun is counted, and waits to be sent. -/
theorem Inv.addXrun (h : s.Inv c) (nsamples : Nat) : (s.addXrun c nsamples).Inv c where
  total := by
    have hne : (c.blocksize : ℚ) ≠ 0 := Nat.cast_ne_zero.mpr c.blocksize_pos.ne'
    have hxrun : (s.xrunblocks + nsamples / c.blocksize) * c.blocksize =
        s.xrunblocks * c.blocksize + nsamples := by field_simp
    have htotal := h.total
    simp only [SourceClock.addXrun, waiting] at htotal ⊢
    rw [hxrun, Nat.cast_add]
    linarith
  latency_le := h.latency_le
  whole := h.whole
  xruns := add_nonneg h.xruns (div_nonneg (Nat.cast_nonneg _) (Nat.cast_nonneg _))

/-- `s'` is `s` with `n` more samples waiting, and nothing else is counted. -/
structure Moved (c : ClockConfig) (n : ℚ) (s s' : SourceClock) : Prop where
  waiting : s'.waiting c = s.waiting c + n
  latency_le : (c.latency : ℚ) ≤ s'.balance
  whole : c.Whole s'.balance
  process : s'.processSamples = s.processSamples
  stream : s'.streamSamples = s.streamSamples
  xruns : s'.xrunblocks = s.xrunblocks
  overflows : s'.overflows = s.overflows

theorem Moved.refl (hge : (c.latency : ℚ) ≤ s.balance) (hwhole : c.Whole s.balance) :
    Moved c 0 s s :=
  ⟨(add_zero _).symm, hge, hwhole, rfl, rfl, rfl, rfl⟩

/-- Frames that are moved in two steps. -/
theorem Moved.trans {m n : ℚ} {s₁ s₂ s₃ : SourceClock} (h : Moved c m s₁ s₂)
    (h' : Moved c n s₂ s₃) : Moved c (m + n) s₁ s₃ where
  waiting := by rw [h'.waiting, h.waiting, add_assoc]
  latency_le := h'.latency_le
  whole := h'.whole
  process := h'.process.trans h.process
  stream := h'.stream.trans h.stream
  xruns := h'.xruns.trans h.xruns
  overflows := h'.overflows.trans h.overflows

/-- Moving a block to the audio queue only changes where its samples wait. -/
theorem drainResampler_moved (c : ClockConfig) :
    ∀ (n : Nat) (s : SourceClock), (c.latency : ℚ) ≤ s.balance → c.Whole s.balance →
      Moved c 0 s (drainResampler c n s).2 := by
  intro n
  induction n with
  | zero => exact fun s => Moved.refl
  | succ n ih =>
    intro s hge hwhole
    unfold drainResampler
    cases hread : c.read s.balance c.blockSize with
    | none => exact Moved.refl hge hwhole
    | some balance =>
      obtain ⟨hbalance, hge', hwhole'⟩ := ClockConfig.read_spec hge hwhole hread
      have hpush : Moved c 0 s (s.pushBlock c balance) := by
        refine ⟨?_, hge', hwhole', rfl, rfl, rfl, rfl⟩
        simp only [waiting, pushBlock, List.length_append, List.length_singleton, hbalance]
        rw [Nat.cast_add]
        ring
      have hmoved := hpush.trans (ih _ hge' hwhole')
      rwa [add_zero] at hmoved

/-- Whether the samples are written or not, nothing gets lost. -/
theorem fillResampler_moved (c : ClockConfig) (nsamples : Nat) :
    ∀ (fuel : Nat) (s : SourceClock), (c.latency : ℚ) ≤ s.balance → c.Whole s.balance →
      Moved c (if (fillResampler c nsamples fuel s).1 then nsamples else 0) s
        (fillResampler c nsamples fuel s).2 := by
  intro fuel
  induction fuel with
  | zero => exact fun s => Moved.refl
  | succ fuel ih =>
    intro s hge hwhole
    unfold fillResampler
    cases hwrite : c.write s.balance nsamples with
    | some balance =>
      obtain ⟨hbalance, hge', hwhole'⟩ := ClockConfig.write_spec hge hwhole hwrite
      refine ⟨?_, hge', hwhole', rfl, rfl, rfl, rfl⟩
      simp only [waiting, hbalance, if_true]
      ring
    | none =>
      have hdrain := drainResampler_moved c (s.writeAvailable c) s hge hwhole
      simp only []
      split
      next =>
        rw [← zero_add (ite _ _ _)]
        exact hdrain.trans (ih _ hdrain.latency_le hdrain.whole)
      next => exact hdrain

/-- A turn of the loop that goes on has moved a block. -/
theorem length_drainResampler (c : ClockConfig) :
    ∀ (n : Nat) (s : SourceClock),
      s.audioQueue.length + (if (drainResampler c n s).1 then 1 else 0) ≤
        (drainResampler c n s).2.audioQueue.length := by
  intro n
  induction n with
  | zero => exact fun s => le_refl _
  | succ n ih =>
    intro s
    unfold drainResampler
    cases c.read s.balance c.blockSize with
    | none => exact le_refl _
    | some balance =>
      refine le_trans ?_ (le_trans (Nat.le_add_right _ _) (ih (s.pushBlock c balance)))
      simp [pushBlock]

/-- The loop ends before the fuel does. -/
theorem fillResampler_fuel (c : ClockConfig) (nsamples : Nat) :
    ∀ (fuel : Nat) (s : SourceClock), s.writeAvailable c < fuel →
      fillResampler c nsamples (fuel + 1) s = fillResampler c nsamples fuel s := by
  intro fuel
  induction fuel with
  | zero =>
    intro s h
    exact absurd h (Nat.not_lt_zero _)
  | succ fuel ih =>
    intro s h
    unfold fillResampler
    cases c.write s.balance nsamples with
    | some balance => rfl
    | none =>
      have hlength := length_drainResampler c (s.writeAvailable c) s
      simp only []
      split
      next hsuccess =>
        refine ih _ ?_
        rw [hsuccess, if_pos rfl] at hlength
        have hroom : 0 < s.writeAvailable c := by
          by_contra hzero
          rw [Nat.eq_zero_of_not_pos hzero, drainResampler] at hsuccess
          cases hsuccess
        unfold writeAvailable at h hroom hlength ⊢
        omega
      next => rfl

/-! ## Every step -/

/-- Samples go to the queue directly if nothing is to be resampled or cut. -/
theorem bypass_iff {c : ClockConfig} : c.bypass = true ↔
    c.method = .none ∧ c.fixedBlockSize = true ∧ c.blocksize = c.blockSize := by
  simp [ClockConfig.bypass]

/-- The clocks without the samples that `process()` has counted and not yet put anywhere. -/
structure Counted (c : ClockConfig) (nsamples : Nat) (s : SourceClock) : Prop where
  total : (s.processSamples : ℚ) = s.streamSamples + s.waiting c + s.overflows.sum + nsamples
  latency_le : (c.latency : ℚ) ≤ s.balance
  whole : c.Whole s.balance
  xruns : 0 ≤ s.xrunblocks

/-- The samples of a call are counted first. -/
theorem Inv.addSamples (h : s.Inv c) (nsamples : Nat) : (s.addSamples nsamples).Counted c nsamples where
  total := by
    have htotal := h.total
    simp only [SourceClock.addSamples, waiting] at htotal ⊢
    rw [Nat.cast_add]
    linarith
  latency_le := h.latency_le
  whole := h.whole
  xruns := h.xruns

/-- An overflow counts the samples again. -/
theorem Counted.overflow {nsamples : Nat} (h : s.Counted c nsamples) :
    (s.overflow c nsamples).Inv c where
  total := by
    have hne : (c.blocksize : ℚ) ≠ 0 := Nat.cast_ne_zero.mpr c.blocksize_pos.ne'
    have hxrun : (s.xrunblocks + nsamples / c.blocksize) * c.blocksize =
        s.xrunblocks * c.blocksize + nsamples := by field_simp
    have htotal := h.total
    simp only [SourceClock.overflow, SourceClock.addXrun, waiting, List.sum_append,
      List.sum_singleton] at htotal ⊢
    rw [hxrun, Nat.cast_add, Nat.cast_add]
    linarith
  latency_le := h.latency_le
  whole := h.whole
  xruns := add_nonneg h.xruns (div_nonneg (Nat.cast_nonneg _) (Nat.cast_nonneg _))

/-- Counted samples are moved through resampler and queue. -/
theorem Counted.moved {nsamples : Nat} {s' : SourceClock} (h : s.Counted c nsamples)
    (hm : Moved c 0 s s') : s'.Counted c nsamples where
  total := by
    have htotal := h.total
    rw [hm.process, hm.stream, hm.overflows, hm.waiting, add_zero]
    exact htotal
  latency_le := hm.latency_le
  whole := hm.whole
  xruns := le_of_le_of_eq h.xruns hm.xruns.symm

/-- The samples are somewhere, so all are counted once. -/
theorem Counted.done {nsamples : Nat} {s' : SourceClock} (h : s.Counted c nsamples)
    (hm : Moved c nsamples s s') : s'.Inv c where
  total := by
    have htotal := h.total
    rw [hm.process, hm.stream, hm.overflows, hm.waiting]
    linarith
  latency_le := hm.latency_le
  whole := hm.whole
  xruns := le_of_le_of_eq h.xruns hm.xruns.symm

/-- In either case the samples are queued, or they become an xrun. -/
theorem queueSamples_spec {nsamples : Nat} (h : s.Counted c nsamples)
    (haccepts : Accepts c nsamples) :
    (queueSamples c s nsamples).2.Inv c ∧
      (queueSamples c s nsamples).2.processSamples =
        s.processSamples + (if (queueSamples c s nsamples).1 = .overflow then nsamples else 0) ∧
      (queueSamples c s nsamples).2.overflows =
        s.overflows ++ if (queueSamples c s nsamples).1 = .overflow then [nsamples] else [] := by
  unfold queueSamples
  by_cases hbypass : c.bypass = true
  · rw [if_pos hbypass]
    obtain ⟨hmethod, hfixed, hsize⟩ := bypass_iff.mp hbypass
    split
    next =>
      -- A block of the user is a block of the stream.
      have hsamples : (nsamples : ℚ) = c.blockSize / c.ratio := by
        have hn := haccepts.2
        rw [if_pos hfixed] at hn
        rw [c.ratio_of_none hmethod, div_one, hn, hsize]
      refine ⟨h.done ⟨?_, h.latency_le, h.whole, rfl, rfl, rfl, rfl⟩, rfl, (List.append_nil _).symm⟩
      simp only [waiting, List.length_append, List.length_singleton, hsamples]
      push_cast
      ring
    next => exact ⟨h.overflow, rfl, rfl⟩
  · rw [if_neg hbypass]
    have hfill := fillResampler_moved c nsamples (s.writeAvailable c + 1) s h.latency_le h.whole
    simp only []
    split
    next hwritten =>
      rw [hwritten, if_pos rfl] at hfill
      have hdrain := drainResampler_moved c (writeAvailable c
        (fillResampler c nsamples (s.writeAvailable c + 1) s).2) _ hfill.latency_le hfill.whole
      have hmoved := hfill.trans hdrain
      rw [add_zero] at hmoved
      exact ⟨h.done hmoved, hmoved.process, hmoved.overflows.trans (List.append_nil _).symm⟩
    next hwritten =>
      rw [if_neg hwritten] at hfill
      refine ⟨(h.moved hfill).overflow, ?_, ?_⟩
      · show _ + nsamples = _ + nsamples
        rw [hfill.process]
      · show _ ++ [nsamples] = _ ++ [nsamples]
        rw [hfill.overflows]

/-- `process()` counts its samples once, and once more if it fails with an overflow. -/
theorem processSamples_process (h : s.Inv c) {nsamples : Nat} (haccepts : Accepts c nsamples)
    (locked : Bool) :
    (s.process c nsamples locked).2.processSamples =
      s.processSamples + nsamples +
        if (s.process c nsamples locked).1 = .overflow then nsamples else 0 := by
  unfold process
  cases locked with
  | true => rfl
  | false => exact (queueSamples_spec (h.addSamples nsamples) haccepts).2.1

/-- `process` keeps the count, also when samples are lost. -/
theorem Inv.process (h : s.Inv c) {nsamples : Nat} (haccepts : Accepts c nsamples)
    (locked : Bool) : (s.process c nsamples locked).2.Inv c := by
  unfold SourceClock.process
  cases locked with
  | true => exact h.addXrun nsamples
  | false => exact (queueSamples_spec (h.addSamples nsamples) haccepts).1

/-- The positions do not matter for the clocks. -/
theorem Inv.timing (h : s.Inv c) (position : Nat) (hasInputTiming : Bool) :
    Inv c { s with nextInputSamplePosition := position, hasInputTiming } :=
  ⟨h.total, h.latency_le, h.whole, h.xruns⟩

/-- `process` with a position keeps the count as well. -/
theorem Inv.processLowLatency (h : s.Inv c) {nsamples : Nat} (haccepts : Accepts c nsamples)
    (locked : Bool) (position : Nat) :
    (s.processLowLatency c nsamples locked position).2.Inv c := by
  have hprocess := (h.timing position true).process haccepts locked
  unfold SourceClock.processLowLatency
  simp only []
  split
  next => exact ⟨hprocess.total, hprocess.latency_le, hprocess.whole, hprocess.xruns⟩
  next => exact hprocess

/-- Empty blocks stand for samples that were lost. -/
theorem sendEmptyBlocks_inv (c : ClockConfig) :
    ∀ (n : Nat) (s : SourceClock), s.Inv c → (sendEmptyBlocks c n s).Inv c := by
  intro n
  induction n with
  | zero => exact fun s h => h
  | succ n ih =>
    intro s h
    unfold sendEmptyBlocks
    split
    next => exact h
    next => exact ih _ ⟨h.total, h.latency_le, h.whole, h.xruns⟩

theorem convert_pos (c : ClockConfig) : 0 < convert c :=
  div_pos (mul_pos c.ratio_pos (Nat.cast_pos.mpr c.blocksize_pos))
    (Nat.cast_pos.mpr c.blockSize_pos)

/-- Xruns become empty blocks as far as they fill whole blocks, and the rest keeps waiting. -/
theorem Inv.sendXruns (h : s.Inv c) (sinks : Bool) : (s.sendXruns c sinks).Inv c := by
  have htotal := h.total
  unfold SourceClock.sendXruns
  split
  next =>
    have hmoved : Inv c { s with
        xrunblocks := 0 - (s.streamBlocks c / convert c - s.xrunblocks)
        streamSamples := s.streamSamples + s.streamBlocks c / convert c * c.blocksize } := by
      refine ⟨?_, h.latency_le, h.whole, ?_⟩
      · simp only [waiting] at htotal ⊢
        linarith
      · have hfloor : (s.streamBlocks c : ℚ) ≤ s.xrunblocks * convert c := Int.floor_le _
        have hle := (div_le_iff₀ (convert_pos c)).mpr hfloor
        show 0 ≤ 0 - (s.streamBlocks c / convert c - s.xrunblocks)
        linarith
    simp only []
    split
    next => exact sendEmptyBlocks_inv c _ _ hmoved
    next => exact hmoved
  next => exact h

/-- A sent block counts as much as it takes from the queue. -/
theorem Inv.sendBlock (h : s.Inv c) (encoded : Bool) : (s.sendBlock c encoded).Inv c := by
  have htotal := h.total
  unfold SourceClock.sendBlock
  split
  next => exact h
  next b queue hqueue =>
    have hsent : (s.processSamples : ℚ) = s.streamSamples + c.blockSize / c.ratio +
        (queue.length * (c.blockSize / c.ratio) + (s.balance - c.latency) +
          s.xrunblocks * c.blocksize) + s.overflows.sum := by
      simp only [waiting, hqueue, List.length_cons] at htotal
      push_cast at htotal ⊢
      linarith
    simp only []
    split
    next => exact ⟨hsent, h.latency_le, h.whole, h.xruns⟩
    next => exact ⟨hsent, h.latency_le, h.whole, h.xruns⟩

/-- Every step keeps the count. -/
theorem Inv.step (h : s.Inv c) {a : Action} (ha : a.Accepted c) : (s.step c a).Inv c := by
  cases a with
  | process nsamples locked => exact h.process ha locked
  | processLowLatency nsamples locked position => exact h.processLowLatency ha locked position
  | handleXrun nsamples => exact h.addXrun nsamples
  | sendXruns sinks => exact h.sendXruns sinks
  | sendBlock encoded => exact h.sendBlock encoded

/-- So does every run. -/
theorem inv_run {as : List Action} (has : ∀ a ∈ as, a.Accepted c) (h : s.Inv c) :
    (as.foldl (step c) s).Inv c := by
  induction as generalizing s with
  | nil => exact h
  | cons a as ih =>
    exact ih (fun b hb => has b (List.mem_cons_of_mem a hb)) (h.step (has a List.mem_cons_self))

/-- What waits is not negative. -/
theorem waiting_nonneg (h : s.Inv c) : 0 ≤ s.waiting c := by
  have hqueue : (0 : ℚ) ≤ s.audioQueue.length * (c.blockSize / c.ratio) :=
    mul_nonneg (Nat.cast_nonneg _) (div_nonneg (Nat.cast_nonneg _) (le_of_lt c.ratio_pos))
  have hxruns : (0 : ℚ) ≤ s.xrunblocks * c.blocksize := mul_nonneg h.xruns (Nat.cast_nonneg _)
  have hbalance := h.latency_le
  unfold waiting
  linarith

/-- The send buffer has no room for the samples: the audio queue is full, or the resampler is
full and cannot be drained into the queue. -/
def Full (c : ClockConfig) (s : SourceClock) (nsamples : Nat) : Prop :=
  if c.bypass then s.writeAvailable c = 0
  else (fillResampler c nsamples (s.writeAvailable c + 1) s).1 = false

/-- `process` reports an overflow when the queue is full. -/
theorem process_overflow_iff (c : ClockConfig) (s : SourceClock) (nsamples : Nat) (locked : Bool) :
    (s.process c nsamples locked).1 = .overflow ↔
      locked = false ∧ (s.addSamples nsamples).Full c nsamples := by
  unfold process queueSamples Full
  cases locked with
  | true => simp
  | false =>
    simp only [Bool.false_eq_true, if_false, true_and]
    by_cases hbypass : c.bypass = true
    · rw [if_pos hbypass, if_pos hbypass]
      split
      next hroom => exact iff_of_false nofun (Nat.pos_iff_ne_zero.mp hroom)
      next hroom => exact iff_of_true rfl (Nat.eq_zero_of_not_pos hroom)
    · rw [if_neg hbypass, if_neg hbypass]
      split
      next hwritten => exact iff_of_false nofun (by rw [hwritten]; nofun)
      next hwritten => exact iff_of_true rfl (Bool.eq_false_iff.mpr hwritten)

/-- Whether a step of the stream finds room for its samples. -/
def HasRoom (c : ClockConfig) (s : SourceClock) : Action → Prop
  | .process nsamples locked => ¬ (locked = false ∧ (s.addSamples nsamples).Full c nsamples)
  | .processLowLatency nsamples locked position =>
    ¬ (locked = false ∧ Full c
      (addSamples { s with nextInputSamplePosition := position, hasInputTiming := true } nsamples)
      nsamples)
  | _ => True

/-- An overflow is noted with the samples of its call. -/
theorem overflows_process (h : s.Inv c) {nsamples : Nat} (haccepts : Accepts c nsamples)
    (locked : Bool) :
    (s.process c nsamples locked).2.overflows =
      s.overflows ++ if (s.process c nsamples locked).1 = .overflow then [nsamples] else [] := by
  unfold process
  cases locked with
  | true => exact (List.append_nil _).symm
  | false => exact (queueSamples_spec (h.addSamples nsamples) haccepts).2.2

/-- Sending loses no samples. -/
theorem overflows_sendEmptyBlocks (c : ClockConfig) :
    ∀ (n : Nat) (s : SourceClock), (sendEmptyBlocks c n s).overflows = s.overflows := by
  intro n
  induction n with
  | zero => exact fun s => rfl
  | succ n ih =>
    intro s
    unfold sendEmptyBlocks
    split
    next => rfl
    next => exact ih _

/-- Samples are counted twice in the steps that find no room. -/
theorem overflows_step (h : s.Inv c) {a : Action} (ha : a.Accepted c) :
    (s.step c a).overflows.sum = 0 ↔ s.overflows.sum = 0 ∧ s.HasRoom c a := by
  have hsum : ∀ (s s' : SourceClock) (nsamples : Nat) (r : ProcessResult), 0 < nsamples →
      s'.overflows = s.overflows ++ (if r = .overflow then [nsamples] else []) →
      (s'.overflows.sum = 0 ↔ s.overflows.sum = 0 ∧ ¬ r = .overflow) := by
    intro s s' nsamples r hpos heq
    rw [heq, List.sum_append]
    by_cases hr : r = .overflow
    · rw [if_pos hr, List.sum_singleton]
      exact iff_of_false (by omega) fun h => h.2 hr
    · rw [if_neg hr, List.sum_nil]
      exact ⟨fun h => ⟨h, hr⟩, fun h => h.1⟩
  cases a with
  | process nsamples locked =>
    refine (hsum s _ nsamples _ ha.1 (overflows_process h ha locked)).trans ?_
    rw [process_overflow_iff]
    exact Iff.rfl
  | processLowLatency nsamples locked position =>
    have htiming := overflows_process (h.timing position true) ha locked
    have hlow : (s.step c (.processLowLatency nsamples locked position)).overflows =
        (process c { s with nextInputSamplePosition := position, hasInputTiming := true }
          nsamples locked).2.overflows := by
      simp only [step, processLowLatency]
      split <;> rfl
    refine (hsum s _ nsamples _ ha.1 (hlow.trans htiming)).trans ?_
    rw [process_overflow_iff]
    exact Iff.rfl
  | handleXrun nsamples => exact (and_iff_left trivial).symm
  | sendXruns sinks =>
    refine Iff.trans ?_ (and_iff_left trivial).symm
    simp only [step, sendXruns]
    split
    next =>
      split
      next => rw [overflows_sendEmptyBlocks]
      next => exact Iff.rfl
    next => exact Iff.rfl
  | sendBlock encoded =>
    refine Iff.trans ?_ (and_iff_left trivial).symm
    simp only [step, sendBlock]
    split
    next => exact Iff.rfl
    next => split <;> exact Iff.rfl

/-- A run loses no samples if and only if there was room in each step. -/
theorem overflows_run {as : List Action} (has : ∀ a ∈ as, a.Accepted c) (h : s.Inv c) :
    (as.foldl (step c) s).overflows.sum = 0 ↔
      s.overflows.sum = 0 ∧ StepsAll (step c) (HasRoom c) s as := by
  induction as generalizing s with
  | nil => exact (and_iff_left trivial).symm
  | cons a as ih =>
    have ha := has a List.mem_cons_self
    refine (ih (fun b hb => has b (List.mem_cons_of_mem a hb)) (h.step ha)).trans ?_
    rw [overflows_step h ha, StepsAll, and_assoc]

/-- **The clocks of a source**: in every state that a running stream can reach, `process()` advances
the process time by its samples if and only if the send buffer has room (or the source is
locked); each sample is counted once if and only if all calls of `process()` have found room;
and stream time does not run ahead of process time. -/
theorem clock_iff (c : ClockConfig) (as : List Action) (has : ∀ a ∈ as, a.Accepted c)
    (s : SourceClock) (hs : s = as.foldl (step c) (start c)) :
    (∀ nsamples locked, Accepts c nsamples →
      ((s.process c nsamples locked).2.processSamples = s.processSamples + nsamples ↔
        s.HasRoom c (.process nsamples locked))) ∧
    (s.Balanced c ↔ StepsAll (step c) (HasRoom c) (start c) as) ∧
    s.streamSamples ≤ s.processSamples := by
  have hinv : s.Inv c := hs ▸ inv_run has (inv_start c)
  have htotal := hinv.total
  refine ⟨fun nsamples locked haccepts => ?_, ?_, ?_⟩
  · have hpos := haccepts.1
    rw [HasRoom, ← process_overflow_iff, processSamples_process hinv haccepts]
    by_cases hoverflow : (s.process c nsamples locked).1 = .overflow
    · rw [if_pos hoverflow]
      exact iff_of_false (by omega) fun h => h hoverflow
    · rw [if_neg hoverflow]
      exact iff_of_true rfl hoverflow
  · have hrun := overflows_run has (inv_start c)
    rw [← hs] at hrun
    have hroom : s.overflows.sum = 0 ↔ StepsAll (step c) (HasRoom c) (start c) as :=
      hrun.trans (and_iff_right rfl)
    rw [← hroom]
    unfold Balanced
    constructor
    · intro h
      have hsum : (s.overflows.sum : ℚ) = 0 := by linarith
      exact_mod_cast hsum
    · intro h
      rw [htotal, h]
      push_cast
      ring
  · have hwaiting := waiting_nonneg hinv
    have hsum : (0 : ℚ) ≤ (s.overflows.sum : ℚ) := Nat.cast_nonneg _
    linarith

/-- A source without resampler. -/
def plainConfig (capacity : Nat) : ClockConfig where
  blocksize := 64
  samplerate := 48000
  blockSize := 64
  sampleRate := 48000
  fixedBlockSize := true
  mode := .linear
  capacity
  blockFrames := some 64
  blocksize_pos := by decide
  samplerate_pos := by decide
  blockSize_pos := by decide
  sampleRate_pos := by decide

/-- Two blocks, an xrun and a block that is not processed because the source is locked. -/
def plainRun : List Action :=
  [.process 64 false, .handleXrun 64, .process 64 true, .process 64 false, .sendXruns true,
    .sendBlock true]

/-- All samples are counted once. -/
theorem plainRun_balanced :
    (plainRun.foldl (step (plainConfig 2)) (start (plainConfig 2))).processSamples = 256 ∧
    (plainRun.foldl (step (plainConfig 2)) (start (plainConfig 2))).Balanced (plainConfig 2) := by
  have haccepted : ∀ a ∈ plainRun, a.Accepted (plainConfig 2) := by
    intro a ha
    simp only [plainRun, List.mem_cons, List.not_mem_nil, or_false] at ha
    rcases ha with rfl | rfl | rfl | rfl | rfl | rfl
    · exact ⟨by decide, rfl⟩
    · trivial
    · exact ⟨by decide, rfl⟩
    · exact ⟨by decide, rfl⟩
    · trivial
    · trivial
  refine ⟨by decide +kernel, (clock_iff (plainConfig 2) plainRun haccepted _ rfl).2.1.mpr ?_⟩
  have hroom : ∀ s : SourceClock, s.audioQueue.length < 2 → ∀ locked,
      HasRoom (plainConfig 2) s (.process 64 locked) := by
    intro s hs locked h
    have hfull : 2 - s.audioQueue.length = 0 := h.2
    omega
  exact ⟨hroom _ (by decide) _, trivial, hroom _ (by decide) _, hroom _ (by decide) _, trivial,
    trivial, trivial⟩

/-- Two blocks for a queue with one: the second is counted twice. -/
theorem overflow_counted_twice :
    ([Action.process 64 false, .process 64 false].foldl (step (plainConfig 1))
      (start (plainConfig 1))).processSamples = 192 ∧
    ¬ ([Action.process 64 false, .process 64 false].foldl (step (plainConfig 1))
      (start (plainConfig 1))).Balanced (plainConfig 1) := by
  refine ⟨by decide +kernel, fun h => ?_⟩
  have hinv : Inv (plainConfig 1) ([Action.process 64 false, .process 64 false].foldl
      (step (plainConfig 1)) (start (plainConfig 1))) := by
    refine inv_run (fun a ha => ?_) (inv_start _)
    have : a = .process 64 false := by simpa using ha
    rw [this]
    exact ⟨by decide, rfl⟩
  have hsum : ([Action.process 64 false, .process 64 false].foldl (step (plainConfig 1))
      (start (plainConfig 1))).overflows.sum = 64 := by decide +kernel
  have htotal := hinv.total
  rw [hsum] at htotal
  unfold Balanced at h
  push_cast at htotal
  linarith

end SourceClock

end Aoo.Stream
