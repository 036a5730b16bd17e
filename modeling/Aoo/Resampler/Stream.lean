import Aoo.Resampler.Buffer
import Mathlib.Tactic.Linarith

/-!
# The stream behind the ring

What the ring of a resampler stands for: a stream of frames, of which `count` have
been put in and `consumed`, a fraction perhaps, have been taken out. `Tracks` relates
the two, and every operation keeps it: a write that fits extends the stream
(`Tracks.write`), a read moves on in it (`Tracks.advanceTo`).

The test `space - 1 < nframes` of `write` leaves one frame of the ring free. So the
frame behind the read position has not been overwritten yet, which is what a look one
frame back needs, and the ring is never full, so `count` and `consumed` determine both
positions.
-/

namespace Aoo.Resampler.DynamicResampler

open Lib

variable {α β : Type} [Zero α]

/-! ## What a write does to the samples -/

/-- The memory after `mirrorFirst` and `mirrorLast`. -/
def mirrorMem (size ch pos stop : Int) (mem : Int → α) : Int → α :=
  let mem := if pos < 2 ∨ stop > size then copySamples mem (size * ch) (2 * ch) mem else mem
  if stop ≥ size then copySamples mem (-1 * ch) (1 * ch) fun i => mem ((size - 1) * ch + i)
  else mem

/-- A block goes into the ring, from the write position on. -/
theorem putBlock_sample {r : DynamicResampler α} (hb : r.buffer.isSome = true) (data : Int → α)
    (n : Int) :
    (r.putBlock data n).sample = ringWrite r.size r.nchannels r.sample r.wrpos n data := by
  have hrest : n * r.nchannels - (r.size - r.wrpos) * r.nchannels =
      (n - (r.size - r.wrpos)) * r.nchannels := (Int.sub_mul ..).symm
  unfold putBlock ringWrite
  by_cases hwrap : r.wrpos + n > r.size
  · rw [if_pos hwrap, if_pos hwrap]
    dsimp only [copy_nchannels]
    rw [← hrest, ← copy_sample hb, ← copy_sample (copy_isSome hb _ _ _)]
    rfl
  · rw [if_neg hwrap, if_neg hwrap]
    exact copy_sample hb _ _ data

omit [Zero α] in
theorem putBlock_isSome {r : DynamicResampler α} (hb : r.buffer.isSome = true) (data : Int → α)
    (n : Int) : (r.putBlock data n).buffer.isSome = true := by
  dsimp only [putBlock]
  split
  next => exact copy_isSome (copy_isSome hb _ _ _) _ _ _
  next => exact copy_isSome hb _ _ _

omit [Zero α] in
/-- The write position wraps around. -/
theorem putBlock_wrpos (r : DynamicResampler α) (data : Int → α) (n : Int) :
    (r.putBlock data n).wrpos =
      if r.size < r.wrpos + n then r.wrpos + n - r.size
      else if r.wrpos + n = r.size then 0 else r.wrpos + n := by
  by_cases hwrap : r.size < r.wrpos + n
  · rw [if_pos hwrap]
    exact congrArg wrpos (if_pos hwrap)
  · rw [if_neg hwrap]
    exact congrArg wrpos (if_neg hwrap)

omit [Zero α] in
/-- A block changes the samples and the write position. -/
theorem putBlock_frame (r : DynamicResampler α) (data : Int → α) (n : Int) :
    r.putBlock data n = { r with
      buffer := (r.putBlock data n).buffer, wrpos := (r.putBlock data n).wrpos } := by
  dsimp only [putBlock]
  split <;> rfl

/-- The guard frames are in the buffer. -/
theorem mirror_frame (r : DynamicResampler α) (pos stop : Int) :
    (r.mirrorFirst pos stop).mirrorLast stop =
      { r with buffer := ((r.mirrorFirst pos stop).mirrorLast stop).buffer } := by
  unfold mirrorFirst mirrorLast
  split <;> split <;> rfl

theorem mirrorFirst_isSome {r : DynamicResampler α} (hb : r.buffer.isSome = true)
    (pos stop : Int) : (r.mirrorFirst pos stop).buffer.isSome = true := by
  unfold mirrorFirst
  split
  next => exact copy_isSome hb _ _ _
  next => exact hb

theorem mirrorLast_isSome {r : DynamicResampler α} (hb : r.buffer.isSome = true)
    (stop : Int) : (r.mirrorLast stop).buffer.isSome = true := by
  unfold mirrorLast
  split
  next => exact copy_isSome hb _ _ _
  next => exact hb

/-- The first and the last frames are copied behind each other's ends. -/
theorem mirror_sample {r : DynamicResampler α} (hb : r.buffer.isSome = true) (pos stop : Int) :
    ((r.mirrorFirst pos stop).mirrorLast stop).sample =
      mirrorMem r.size r.nchannels pos stop r.sample := by
  have hfirst : (r.mirrorFirst pos stop).sample =
      if pos < 2 ∨ stop > r.size then
        copySamples r.sample (r.size * r.nchannels) (2 * r.nchannels) r.sample
      else r.sample := by
    unfold mirrorFirst
    split
    next => exact copy_sample hb _ _ _
    next => rfl
  have hsize : (r.mirrorFirst pos stop).size = r.size := by
    unfold mirrorFirst
    split <;> rfl
  have hch : (r.mirrorFirst pos stop).nchannels = r.nchannels := by
    unfold mirrorFirst
    split <;> rfl
  have hb' := mirrorFirst_isSome hb pos stop
  have hstart : -(buffer_shift * r.nchannels) = -1 * r.nchannels := by
    rw [buffer_shift]
    omega
  have hlast : r.size * r.nchannels - r.nchannels = (r.size - 1) * r.nchannels := by
    rw [Int.sub_mul, Int.one_mul]
  unfold mirrorMem mirrorLast
  dsimp only
  rw [← hfirst, hsize, hch, hstart, hlast, Int.one_mul]
  by_cases hend : stop ≥ r.size
  · rw [if_pos hend, if_pos hend, copy_sample hb']
  · rw [if_neg hend, if_neg hend]

omit [Zero α] in
/-- The mirrored frames are outside the ring. -/
theorem mirrorMem_inside {size ch pos stop p j : Int} {mem : Int → α} (hp0 : 0 ≤ p)
    (hp : p < size) (hj0 : 0 ≤ j) (hj : j < ch) :
    mirrorMem size ch pos stop mem (p * ch + j) = mem (p * ch + j) := by
  have hfirst : (if pos < 2 ∨ stop > size then copySamples mem (size * ch) (2 * ch) mem else mem)
      (p * ch + j) = mem (p * ch + j) := by
    split
    next => rw [copySamples_frame hj0 hj, if_neg (by omega)]
    next => rfl
  unfold mirrorMem
  split
  next =>
    rw [copySamples_frame hj0 hj, if_neg (by omega)]
    exact hfirst
  next => exact hfirst

omit [Zero α] in
@[simp] theorem putBlock_allocation (r : DynamicResampler α) (data : Int → α) (n : Int) :
    (r.putBlock data n).allocation = r.allocation := by
  dsimp only [putBlock]
  split
  next => exact (copy_allocation _ _ _ _).trans (copy_allocation r _ _ _)
  next => exact copy_allocation r _ _ _

@[simp] theorem mirrorFirst_allocation (r : DynamicResampler α) (pos stop : Int) :
    (r.mirrorFirst pos stop).allocation = r.allocation := by
  unfold mirrorFirst
  split
  next => exact copy_allocation r _ _ _
  next => rfl

@[simp] theorem mirrorLast_allocation (r : DynamicResampler α) (stop : Int) :
    (r.mirrorLast stop).allocation = r.allocation := by
  unfold mirrorLast
  split
  next => exact copy_allocation r _ _ _
  next => rfl

/-! ## One write -/

/-- A write leaves the buffer where it is. -/
theorem write_allocation (r : DynamicResampler α) (data : Int → α) (n : Int) :
    (r.write data n).2.allocation = r.allocation := by
  unfold write
  dsimp only
  split
  next => rfl
  next =>
    split
    next =>
      show ((_ : DynamicResampler α).mirrorLast _).allocation = _
      rw [mirrorLast_allocation, mirrorFirst_allocation, putBlock_allocation]
    next => exact putBlock_allocation r data n

/-- A block that does not fit changes nothing. -/
theorem write_rejected {r : DynamicResampler α} {data : Int → α} {n : Int}
    (h : (r.write data n).1 = false) : (r.write data n).2 = r := by
  unfold write at h ⊢
  dsimp only at h ⊢
  split at h
  next hspace => rw [if_pos hspace]
  next => cases h

/-- What an accepted block found and what it left behind. -/
theorem write_accepted {r : DynamicResampler α} (hb : r.buffer.isSome = true) {data : Int → α}
    {n : Int} (h : (r.write data n).1 = true) :
    n ≤ toInt32 (r.size - r.balance) - 1 ∧
    (r.write data n).2.buffer.isSome = true ∧
    (r.write data n).2 = { r with
      buffer := (r.write data n).2.buffer
      wrpos := (r.putBlock data n).wrpos
      balance := r.balance + n } ∧
    (r.write data n).2.sample =
      if r.method ≠ .none then
        mirrorMem r.size r.nchannels r.wrpos (r.wrpos + n)
          (ringWrite r.size r.nchannels r.sample r.wrpos n data)
      else ringWrite r.size r.nchannels r.sample r.wrpos n data := by
  have hput := putBlock_frame r data n
  have hputb := putBlock_isSome hb data n
  unfold write at h ⊢
  dsimp only at h ⊢
  split at h
  next => cases h
  next hspace =>
    rw [if_neg hspace]
    have hmethod : (r.putBlock data n).method = r.method := by rw [hput]
    have hsize : (r.putBlock data n).size = r.size := by rw [hput]
    have hch : (r.putBlock data n).nchannels = r.nchannels := by rw [hput]
    refine ⟨by omega, ?_, ?_, ?_⟩
    · split
      next => exact mirrorLast_isSome (mirrorFirst_isSome hputb _ _) _
      next => exact hputb
    · split
      next => rw [mirror_frame, hput]
      next => rw [hput]
    · rw [← putBlock_sample hb, ← hsize, ← hch, ← hmethod]
      split
      next => exact mirror_sample hputb _ _
      next => rfl

/-! ## A read that is refused -/

omit [Zero α] in
/-- A read that is refused leaves the resampler as it is. -/
theorem readFractional_rejected {r : DynamicResampler α} {latency : Int}
    {channel : ℚ → Int → β} {n : Int} (h : (r.readFractional latency channel n).1 = none) :
    (r.readFractional latency channel n).2 = r := by
  dsimp only [readFractional] at h ⊢
  split at h
  next hlow => rw [if_pos hlow]
  next => cases h

omit [Zero α] in
/-- So does one that skips samples. -/
theorem readSkip_rejected {r : DynamicResampler α} {buffer : Int → β} {n : Int}
    (h : (r.readSkip buffer n).1 = none) : (r.readSkip buffer n).2 = r := by
  dsimp only [readSkip] at h ⊢
  split at h
  next hlow => rw [if_pos hlow]
  next => cases h

omit [Zero α] in
/-- So does one that only cuts blocks. -/
theorem readReblock_rejected {r : DynamicResampler α} {buffer : Int → β} {n : Int}
    (h : (r.readReblock buffer n).1 = none) : (r.readReblock buffer n).2 = r := by
  dsimp only [readReblock] at h ⊢
  split at h
  next hlow => rw [if_pos hlow]
  next =>
    split at h
    next => cases h
    next => cases h

omit [Zero α] in
/-- So does each kind of read. -/
theorem readFrom_rejected {r : DynamicResampler α} {buffer : Int → β} {mix : Mix β} {n : Int}
    (h : (r.readFrom buffer mix n).1 = none) : (r.readFrom buffer mix n).2 = r := by
  cases hm : r.method <;> simp only [readFrom, hm] at h ⊢
  case none => exact readReblock_rejected h
  case skip => exact readSkip_rejected h
  case hold => exact readFractional_rejected h
  case linear => exact readFractional_rejected h
  case cubic => exact readFractional_rejected h

/-- A read that is refused changes nothing. -/
theorem read_rejected {mix : Mix α} {r : DynamicResampler α} {n : Int}
    (h : (r.read mix n).1 = none) : (r.read mix n).2 = r :=
  readFrom_rejected h

/-! ## What `setup` starts with -/

omit [Zero α] in
/-- The method stays when the buffer is freed. -/
theorem free_buffer_method (r : DynamicResampler α) : r.free_buffer.1.method = r.method := by
  unfold free_buffer
  split <;> rfl

/-- It stays when a new one is allocated. -/
theorem setBuffer_method (r : DynamicResampler α) (a : SetupArgs) :
    (r.setBuffer a).method = r.method := by
  unfold setBuffer
  rw [apply_ite method, free_buffer_method]
  dsimp only
  rw [apply_ite method]
  dsimp only
  rw [free_buffer_method, ite_self, ite_self]

/-- A resampler that is not bypassed has a buffer. -/
theorem setup_isSome (r : DynamicResampler α) {a : SetupArgs} (hb : a.bypass = false) :
    (r.setup a).buffer.isSome = true := by
  have halloc : (r.setup a).allocation ≠ none := by
    rw [setup_allocation, if_neg (by rw [hb]; exact Bool.false_ne_true)]
    split
    next => exact Option.some_ne_none _
    next heq =>
      -- the old memory is kept, so there is some
      intro hnone
      exact newSamples_ne_zero a ((not_not.mp heq).symm.trans (oldSamples_none hnone))
  rw [allocation, ne_eq, Option.map_eq_none_iff] at halloc
  exact Option.isSome_iff_ne_none.mpr halloc

/-- The zeros in front of a stream. -/
def initialFrames : ResampleMethod → Int
  | .cubic => latency_cubic
  | .linear => latency_linear
  | _ => 0

/-- `reset` starts again with the frames that the method needs. -/
theorem reset_frame (r : DynamicResampler α) : r.reset = { r with
    buffer := r.reset.buffer, wrpos := initialFrames r.method, rdpos := 0
    balance := initialFrames r.method } := by
  unfold reset
  cases hm : r.method <;> simp [fill, copy, initialFrames, hm]

/-- `setup` ends with a `reset` of a resampler with the new method and ratio. -/
theorem setup_eq_reset (r : DynamicResampler α) (a : SetupArgs) : ∃ q : DynamicResampler α,
    r.setup a = q.reset ∧ q.method = a.method.1 ∧
      (a.method.1 ≠ .none → q.advance = a.srfrom / a.srto) := by
  refine ⟨_, rfl, ?_, fun hm => ?_⟩
  · rw [apply_ite method, update, ite_self]
    exact setBuffer_method _ a
  · rw [if_pos (by rw [setBuffer_method]; exact hm)]
    rfl

/-- `setup` takes the method it is told. -/
theorem setup_method (r : DynamicResampler α) (a : SetupArgs) :
    (r.setup a).method = a.method.1 := by
  obtain ⟨q, hq, hm, -⟩ := setup_eq_reset r a
  rw [hq, reset_frame]
  exact hm

/-- After `setup` the positions are those of a new stream. -/
theorem setup_start (r : DynamicResampler α) (a : SetupArgs) :
    (r.setup a).wrpos = initialFrames a.method.1 ∧ (r.setup a).rdpos = 0 ∧
      (r.setup a).balance = initialFrames a.method.1 := by
  obtain ⟨q, hq, hm, -⟩ := setup_eq_reset r a
  rw [hq, reset_frame, ← hm]
  exact ⟨rfl, rfl, rfl⟩

/-- A step of the reader is the ratio of the rates. -/
theorem setup_advance (r : DynamicResampler α) {a : SetupArgs} (hm : a.method.1 ≠ .none) :
    (r.setup a).advance = a.srfrom / a.srto := by
  obtain ⟨q, hq, -, hadv⟩ := setup_eq_reset r a
  rw [hq, reset_frame]
  exact hadv hm

/-! ## The ring and the stream -/

/-- The ring holds the end of a stream of `count` frames, of which `consumed` have been
read. `lo` is the first frame that has a value. -/
structure Tracks (r : DynamicResampler α) (lo count : Int) (x : Int → Int → α)
    (consumed : ℚ) : Prop where
  buffer : r.buffer.isSome = true
  size_pos : 0 < r.size
  size_lt : r.size < 2147483648
  wrpos : r.wrpos = count % r.size
  balance : r.balance = count - consumed
  unread : consumed ≤ count
  room : count - consumed ≤ r.size - 1
  rdpos_nonneg : 0 ≤ r.rdpos
  rdpos_lt : r.rdpos < r.size
  lap : ∃ lap : Int, consumed = lap * r.size + r.rdpos
  ring : RingHolds r.size r.nchannels r.sample lo count x

/-- A block that was accepted leaves one frame of the ring free. -/
theorem Tracks.fits {r : DynamicResampler α} {lo count : Int} {x : Int → Int → α} {consumed : ℚ}
    (h : r.Tracks lo count x consumed) {data : Int → α} {n : Int}
    (hok : (r.write data n).1 = true) : count + n - consumed ≤ r.size - 1 := by
  have hn := (write_accepted h.buffer hok).1
  have hunread := h.unread
  have hroom := h.room
  have hsize : (r.size : ℚ) < 2147483648 := by exact_mod_cast h.size_lt
  have hspace : (r.size : ℚ) - r.balance = r.size - (count - consumed) := by rw [h.balance]
  have hfloor := Int.floor_le ((r.size : ℚ) - (count - consumed))
  rw [hspace, toInt32_eq_floor (by linarith) (by linarith)] at hn
  have hnq : (n : ℚ) ≤ ⌊(r.size : ℚ) - (count - consumed)⌋ - 1 := by exact_mod_cast hn
  linarith

/-- **An accepted block extends the stream.** -/
theorem Tracks.write {r : DynamicResampler α} {lo count : Int} {x y : Int → Int → α}
    {consumed : ℚ} (h : r.Tracks lo count x consumed) {data : Int → α} {n : Int} (hn0 : 0 ≤ n)
    (hok : (r.write data n).1 = true) (hold : ∀ i j, i < count → y i j = x i j)
    (hnew : ∀ i j, count ≤ i → i < count + n → y i j = data ((i - count) * r.nchannels + j)) :
    (r.write data n).2.Tracks lo (count + n) y consumed := by
  obtain ⟨-, hb, hframe, hsample⟩ := write_accepted h.buffer hok
  have hfits := h.fits hok
  have hunread := h.unread
  have hn : n ≤ r.size := by
    have hq : (n : ℚ) ≤ r.size := by linarith
    exact_mod_cast hq
  have hsize : (r.write data n).2.size = r.size := by rw [hframe]
  have hch : (r.write data n).2.nchannels = r.nchannels := by rw [hframe]
  have hrdpos : (r.write data n).2.rdpos = r.rdpos := by rw [hframe]
  have hbalance : (r.write data n).2.balance = r.balance + n := by rw [hframe]
  have hwrpos : (r.write data n).2.wrpos = (r.putBlock data n).wrpos := by rw [hframe]
  have hnq : (0 : ℚ) ≤ n := by exact_mod_cast hn0
  refine ⟨hb, by rw [hsize]; exact h.size_pos, by rw [hsize]; exact h.size_lt, ?_, ?_, ?_, ?_,
    by rw [hrdpos]; exact h.rdpos_nonneg, by rw [hrdpos, hsize]; exact h.rdpos_lt,
    by rw [hrdpos, hsize]; exact h.lap, ?_⟩
  · rw [hwrpos, hsize, putBlock_wrpos, h.wrpos, ring_position h.size_pos hn0 hn]
  · rw [hbalance, h.balance]
    push_cast
    ring
  · push_cast
    linarith
  · rw [hsize]
    push_cast
    linarith
  · rw [hsize, hch, hsample]
    have hring := h.ring.write h.size_pos hn0 hn hold hnew
    rw [← h.wrpos] at hring
    split
    next =>
      intro i j hlo hback hi hj0 hj
      have hne : r.size ≠ 0 := by have := h.size_pos; omega
      rw [mirrorMem_inside (Int.emod_nonneg i hne) (Int.emod_lt_of_pos i h.size_pos) hj0 hj]
      exact hring i j hlo hback hi hj0 hj
    next => exact hring

/-- A read moves on in the stream by what it takes out of the balance. -/
theorem Tracks.advanceTo {r : DynamicResampler α} {lo count : Int} {x : Int → Int → α}
    {consumed taken pos : ℚ} (h : r.Tracks lo count x consumed) (h0 : 0 ≤ taken)
    (hle : taken ≤ count - consumed)
    (hpos : pos = if r.rdpos + taken ≥ r.size then r.rdpos + taken - r.size
      else r.rdpos + taken) {balance : ℚ} (hbalance : balance = r.balance - taken) :
    Tracks { r with rdpos := pos, balance := balance } lo count x (consumed + taken) := by
  obtain ⟨lap, hlap⟩ := h.lap
  have hroom := h.room
  have hpos0 := h.rdpos_nonneg
  have hposlt := h.rdpos_lt
  refine ⟨h.buffer, h.size_pos, h.size_lt, h.wrpos, ?_, by linarith, by linarith, ?_, ?_, ?_,
    h.ring⟩
  · show balance = _
    rw [hbalance, h.balance]
    ring
  · show 0 ≤ pos
    rw [hpos]
    split
    next => linarith
    next => linarith
  · show pos < r.size
    rw [hpos]
    split
    next => linarith
    next hlt => linarith
  · show ∃ lap : Int, consumed + taken = lap * r.size + pos
    rw [hpos]
    split
    next =>
      refine ⟨lap + 1, ?_⟩
      rw [hlap]
      push_cast
      ring
    next =>
      refine ⟨lap, ?_⟩
      rw [hlap]
      ring

end Aoo.Resampler.DynamicResampler
