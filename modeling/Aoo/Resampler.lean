import Aoo.Lib.Interleaved
import Aoo.Lib.Rounding

/-!
# The resampler

`dynamic_resampler`, in `resampler.cpp`: a ring of interleaved frames that a writer
fills block by block and a reader empties with blocks of another size, at another
rate. `none` only reblocks, `skip` drops all but every k-th frame, `hold`, `linear`
and `cubic` read at fractional positions. The interpolating methods look one frame
back and up to two frames ahead; so that they need no test at the ends of the ring,
the buffer has one more frame in front, which mirrors the last one, and two behind
the end, which mirror the first two.

The doubles from which `setup` computes the number of frames are rounded; those of
the reader, its position, its balance and its step, are exact rationals. The memory of
a buffer is a function on sample offsets, counted from the start of its allocation, and
`buffer_` is an offset into it. What the function gives outside the allocation means
nothing: `Inside` says which of its samples there are. `setup` keeps the memory when the
number of samples has not changed. Positions in the ring and sample offsets are those of
memory that is there and are not wrapped; what a conversion to `int32_t`, the product of a
caller's number with another or the `int16_t` of the channel count does to a value
is in the model. The samples are of any type: how four neighbours are mixed is a
parameter, with `pdTabread4` as its instance for the rationals.
-/

namespace Aoo.Resampler

open Lib

variable {α β : Type}

/-! ## Conversions -/

/-- A double without its fraction. -/
def truncate (q : ℚ) : Int := if 0 ≤ q then ⌊q⌋ else ⌈q⌉

/-- `(int32_t)q`. For a value that is out of range the language leaves the result
open; this is the one of the usual machine instruction. -/
def toInt32 (q : ℚ) : Int :=
  let n := truncate q
  if -2147483648 ≤ n ∧ n < 2147483648 then n else -2147483648

/-- An `int32_t` product or sum that may leave the range. -/
def wrap32 (n : Int) : Int := Int.bmod n 4294967296

/-- In range the cast to `int32_t` cuts off the fraction. -/
theorem toInt32_eq_floor {q : ℚ} (h0 : 0 ≤ q) (h : q < 2147483648) : toInt32 q = ⌊q⌋ := by
  have hlow : 0 ≤ ⌊q⌋ := Int.floor_nonneg.mpr h0
  have hhigh : ⌊q⌋ < 2147483648 := Int.floor_lt.mpr (by exact_mod_cast h)
  simp only [toInt32, truncate, if_pos h0]
  exact if_pos ⟨by omega, hhigh⟩

/-- It leaves an integer alone. -/
theorem toInt32_intCast {n : Int} (h0 : 0 ≤ n) (h : n < 2147483648) : toInt32 n = n := by
  rw [toInt32_eq_floor (by exact_mod_cast h0) (by exact_mod_cast h), Int.floor_intCast]

/-- A value stored in an `int16_t`. -/
def wrap16 (n : Int) : Int := Int.bmod n 65536

/-- A value converted to `size_t`. -/
def sizeT (n : Int) : Nat := (n % 18446744073709551616).toNat

/-! ## Data -/

inductive ResampleMethod
  | none
  | skip
  | hold
  | linear
  | cubic
  deriving DecidableEq, Repr

def kAooResampleHold : Int := 0
def kAooResampleLinear : Int := 1
def kAooResampleCubic : Int := 2

/-- `AOO_RESAMPLER_SPACE` -/
def AOO_RESAMPLER_SPACE : ℚ := 5 / 2

def latency_linear : Int := 1
def latency_cubic : Int := 2
def buffer_shift : Int := 1
def extra_space : Int := 3

/-- `sizeof(AooSample)` -/
def sizeofAooSample : Nat := 4

/-- What `buffer_` points into: an allocation of `bytes` bytes, what lies in it and around
it, and the sample of it that is `buffer_[0]`. -/
structure Buffer (α : Type) where
  bytes : Nat
  offset : Int
  mem : Int → α

/-- `dynamic_resampler` -/
structure DynamicResampler (α : Type) where
  buffer : Option (Buffer α) := none
  size : Int := 0
  nchannels : Int := 0
  latency : Int := 0
  method : ResampleMethod := .none
  bypass : Bool := false
  fixedSr : Bool := false
  wrpos : Int := 0
  rdpos : ℚ := 0
  balance : ℚ := 0
  advance : ℚ := 1
  idealRatio : ℚ := 1

namespace DynamicResampler

/-- `std::copy(src, src + n, buffer_ + dst)` -/
def copy (r : DynamicResampler α) (dst n : Int) (src : Int → α) : DynamicResampler α :=
  { r with buffer := r.buffer.map fun b =>
      { b with mem := copySamples b.mem (b.offset + dst) n src } }

/-- Where `buffer_` points in an allocation of how many bytes. -/
def allocation (r : DynamicResampler α) : Option (Nat × Int) :=
  r.buffer.map fun b => (b.bytes, b.offset)

/-- A copy changes the samples, not the place and the size of the buffer. -/
@[simp] theorem copy_allocation (r : DynamicResampler α) (dst n : Int) (src : Int → α) :
    (r.copy dst n src).allocation = r.allocation := by
  simp only [allocation, copy, Option.map_map]
  rfl

@[simp] theorem copy_size (r : DynamicResampler α) (dst n : Int) (src : Int → α) :
    (r.copy dst n src).size = r.size := rfl

@[simp] theorem copy_nchannels (r : DynamicResampler α) (dst n : Int) (src : Int → α) :
    (r.copy dst n src).nchannels = r.nchannels := rfl

/-- A copy into the buffer leaves a buffer. -/
theorem copy_isSome {r : DynamicResampler α} (hb : r.buffer.isSome = true) (dst n : Int)
    (src : Int → α) : (r.copy dst n src).buffer.isSome = true := by
  rw [copy, Option.isSome_map, hb]

/-- `buffer_[i]` is a sample of the allocation. -/
def Inside (r : DynamicResampler α) (i : Int) : Prop :=
  ∃ b, r.buffer = some b ∧ 0 ≤ b.offset + i ∧ (b.offset + i + 1) * sizeofAooSample ≤ b.bytes

variable [Zero α]

/-- `buffer_[i]` -/
def sample (r : DynamicResampler α) (i : Int) : α :=
  match r.buffer with
  | some b => b.mem (b.offset + i)
  | none => 0

/-- It changes the samples that it covers. -/
theorem copy_sample {r : DynamicResampler α} (hb : r.buffer.isSome = true) (dst n : Int)
    (src : Int → α) : (r.copy dst n src).sample = copySamples r.sample dst n src := by
  obtain ⟨b, hb⟩ := Option.isSome_iff_exists.mp hb
  funext i
  simp only [sample, copy, hb, Option.map_some, copySamples]
  have hindex : b.offset + i - (b.offset + dst) = i - dst := by omega
  rw [hindex]
  refine if_congr ?_ rfl rfl
  omega

/-- `std::fill(buffer_ + dst, buffer_ + dst + n, 0)` -/
def fill (r : DynamicResampler α) (dst n : Int) : DynamicResampler α :=
  r.copy dst n fun _ => 0

@[simp] theorem fill_allocation (r : DynamicResampler α) (dst n : Int) :
    (r.fill dst n).allocation = r.allocation := copy_allocation r dst n _

@[simp] theorem fill_size (r : DynamicResampler α) (dst n : Int) :
    (r.fill dst n).size = r.size := rfl

@[simp] theorem fill_nchannels (r : DynamicResampler α) (dst n : Int) :
    (r.fill dst n).nchannels = r.nchannels := rfl

/-! ## Setup -/

/-- The block of memory that `free_buffer` hands to `deallocate`: where it starts,
counted in samples from the start of the allocation, and its size. -/
structure Released where
  start : Int
  bytes : Nat
  deriving DecidableEq

/-- `free_buffer` -/
def free_buffer (r : DynamicResampler α) : DynamicResampler α × Option Released :=
  match r.buffer with
  | some b =>
    let alloc_size := sizeT ((r.size + extra_space) * r.nchannels * sizeofAooSample)
    ({ r with buffer := none, size := 0 },
      some ⟨b.offset - buffer_shift * r.nchannels, alloc_size⟩)
  | none => (r, none)

/-- The arguments of `setup`: positive block sizes, rates and channel count. -/
structure SetupArgs where
  nfrom : Int
  nto : Int
  fixed_n : Bool
  srfrom : Int
  srto : Int
  fixed_sr : Bool
  nchannels : Int
  mode : Int
  nfrom_pos : 0 < nfrom ∧ nfrom < 2147483648
  nto_pos : 0 < nto ∧ nto < 2147483648
  srfrom_pos : 0 < srfrom ∧ srfrom < 2147483648
  srto_pos : 0 < srto ∧ srto < 2147483648
  nchannels_pos : 0 < nchannels ∧ nchannels < 2147483648

namespace SetupArgs

/-- The method and its latency. A mode that does not exist gives `linear`, without
the latency. -/
def method (a : SetupArgs) : ResampleMethod × Int :=
  if a.fixed_sr && a.srfrom == a.srto then (.none, 0)
  else if a.fixed_sr && decide (a.srto < a.srfrom) && a.srfrom % a.srto == 0 then (.skip, 0)
  else if a.mode = kAooResampleHold then (.hold, 0)
  else if a.mode = kAooResampleLinear then (.linear, latency_linear)
  else if a.mode = kAooResampleCubic then (.cubic, latency_cubic)
  else (.linear, 0)

def bypass (a : SetupArgs) : Bool :=
  a.method.1 == .none && !(!a.fixed_n || a.nfrom != a.nto)

def idealRatio (a : SetupArgs) : ℚ := double (a.srto / a.srfrom)

/-- The frames between two blocks. -/
def blockSize (a : SetupArgs) : Int :=
  if a.idealRatio < 1 then
    max a.nfrom (toInt32 (double (double (a.nto / a.idealRatio) + 1 / 2)))
  else max a.nfrom a.nto

/-- The frames of the buffer. Two and a half times an `int32_t` is a double. -/
def size (a : SetupArgs) : Int := toInt32 (a.blockSize * AOO_RESAMPLER_SPACE)

end SetupArgs

/-- `update` -/
def update (r : DynamicResampler α) (srfrom srto : ℚ) : DynamicResampler α :=
  { r with advance := srfrom / srto }

/-- `reset` -/
def reset (r : DynamicResampler α) : DynamicResampler α :=
  match r.method with
  | .cubic =>
    let r := r.fill 0 (latency_cubic * r.nchannels)
    let stop := r.size * r.nchannels
    let r := r.fill (stop - r.nchannels) r.nchannels
    let r := r.fill (-(buffer_shift * r.nchannels)) (buffer_shift * r.nchannels)
    { r with wrpos := latency_cubic, rdpos := 0, balance := latency_cubic }
  | .linear =>
    let r := r.fill 0 (latency_linear * r.nchannels)
    { r with wrpos := latency_linear, rdpos := 0, balance := latency_linear }
  | _ => { r with wrpos := 0, rdpos := 0, balance := 0 }

/-- The part of `setup` that provides the buffer. -/
def setBuffer (r : DynamicResampler α) (a : SetupArgs) : DynamicResampler α :=
  if a.bypass then r.free_buffer.1
  else
    let old_nsamples := if r.buffer.isSome then sizeT ((r.size + extra_space) * r.nchannels) else 0
    let nsamples := sizeT ((a.size + extra_space) * a.nchannels)
    let r :=
      if old_nsamples ≠ nsamples then
        { r.free_buffer.1 with buffer := some {
            bytes := sizeT (nsamples * sizeofAooSample)
            offset := buffer_shift * a.nchannels
            mem := fun _ => 0 } }
      else r
    { r with size := a.size }

/-- `setup` -/
def setup (r : DynamicResampler α) (a : SetupArgs) : DynamicResampler α :=
  let r := { r with
    idealRatio := a.idealRatio
    fixedSr := a.fixed_sr
    method := a.method.1
    latency := a.method.2
    bypass := a.bypass }
  let r : DynamicResampler α := { r.setBuffer a with nchannels := wrap16 a.nchannels }
  let r := if r.method ≠ .none then r.update a.srfrom a.srto else r
  r.reset

/-! ## Writing -/

/-- The copy in `write`, in two pieces if the block reaches the end of the ring. -/
def putBlock (r : DynamicResampler α) (data : Int → α) (nframes : Int) : DynamicResampler α :=
  let pos := r.wrpos
  let stop := r.wrpos + nframes
  if stop > r.size then
    let split := r.size - pos
    let r := r.copy (pos * r.nchannels) (split * r.nchannels) data
    let r := r.copy 0 (nframes * r.nchannels - split * r.nchannels)
      fun i => data (split * r.nchannels + i)
    { r with wrpos := stop - r.size }
  else
    let r := r.copy (pos * r.nchannels) (nframes * r.nchannels) data
    { r with wrpos := if stop = r.size then 0 else stop }

/-- Mirror the first two frames behind the end, if one of them has been written by a
block from `pos` to `stop`. -/
def mirrorFirst (r : DynamicResampler α) (pos stop : Int) : DynamicResampler α :=
  let bufend := r.size * r.nchannels
  if pos < 2 ∨ stop > r.size then r.copy bufend (2 * r.nchannels) r.sample else r

/-- Mirror the last frame in front of the start. -/
def mirrorLast (r : DynamicResampler α) (stop : Int) : DynamicResampler α :=
  let bufstart := -(buffer_shift * r.nchannels)
  let bufend := r.size * r.nchannels
  if stop ≥ r.size then r.copy bufstart r.nchannels fun i => r.sample (bufend - r.nchannels + i)
  else r

/-- `write`: does the block fit, and the resampler afterwards. -/
def write (r : DynamicResampler α) (data : Int → α) (nframes : Int) :
    Bool × DynamicResampler α :=
  let space := toInt32 (r.size - r.balance)
  -- leave extra space for cubic interpolation
  if space - 1 < nframes then (false, r)
  else
    let pos := r.wrpos
    let stop := r.wrpos + nframes
    let r := r.putBlock data nframes
    let r := if r.method ≠ .none then (r.mirrorFirst pos stop).mirrorLast stop else r
    (true, { r with balance := r.balance + nframes })

/-! ## Reading -/

/-- The frames that `for (i = 0; i < nsamples; i += nchannels)` visits, where
`nsamples` is the `int32_t` product of both. -/
def loopFrames (nframes nchannels : Int) : Nat :=
  let nsamples := wrap32 (nframes * nchannels)
  if 0 < nchannels then ((nsamples + nchannels - 1) / nchannels).toNat else 0

/-- The positions of a loop that advances by `advance` and wraps at `limit`. -/
def positions (advance limit : ℚ) : Nat → ℚ → List ℚ
  | 0, _ => []
  | n + 1, pos =>
    pos :: positions advance limit n
      (if pos + advance ≥ limit then pos + advance - limit else pos + advance)

/-- How `linear` and `cubic` mix two or four neighbouring samples. -/
structure Mix (α : Type) where
  linear : ℚ → α → α → α
  cubic : ℚ → α → α → α → α → α

/-- The formulas of the source, the second one taken from Pd's [tabread4~]. -/
def pdTabread4 : Mix ℚ where
  linear := fun fract a b => a + (b - a) * fract
  cubic := fun fract a b c d =>
    let cminusb := c - b
    b + fract * (cminusb - 1 / 6 * (1 - fract) *
      ((d - a - 3 * cminusb) * fract + (d + a * 2 - b * 3)))

/-- One output frame: channel by channel, from the samples at `pos`. -/
def outputFrame (r : DynamicResampler α) (channel : Int → β) : List β :=
  (List.range r.nchannels.toNat).map fun j : Nat => channel j

/-- The branches `cubic`, `linear` and `hold` of `read`, which differ in the frames
they keep back and in what they make of a position. -/
def readFractional (r : DynamicResampler α) (latency : Int) (channel : ℚ → Int → β)
    (nframes : Int) : Option (List β) × DynamicResampler α :=
  let fadvance := r.advance
  let readframes := nframes * fadvance
  if r.balance - latency < readframes then (none, r)
  else
    let limit : ℚ := r.size
    let data := (positions fadvance limit (loopFrames nframes r.nchannels) r.rdpos).flatMap
      fun pos => r.outputFrame (channel pos)
    let pos := r.rdpos + readframes
    (some data, { r with
      rdpos := if pos ≥ limit then pos - limit else pos
      balance := r.balance - readframes })

/-- The loop of `skip`. -/
def skipFrames (r : DynamicResampler α) (buffer : Int → β) (iadvance : Int) :
    Nat → Int → List β × Int
  | 0, ipos => ([], ipos)
  | n + 1, ipos =>
    let next := ipos + iadvance
    let rest := r.skipFrames buffer iadvance n (if next ≥ r.size then next - r.size else next)
    (r.outputFrame (fun j => buffer (ipos * r.nchannels + j)) ++ rest.1, rest.2)

/-- `n` samples from `buffer_ + start`. -/
def samples (buffer : Int → β) (start n : Int) : List β :=
  (List.range n.toNat).map fun i : Nat => buffer (start + i)

/-- The branch `skip` of `read`. -/
def readSkip (r : DynamicResampler α) (buffer : Int → β) (nframes : Int) :
    Option (List β) × DynamicResampler α :=
  let iadvance := toInt32 r.advance
  let ibalance := toInt32 r.balance
  let ireadframes := wrap32 (nframes * iadvance)
  if ibalance < ireadframes then (none, r)
  else
    let loop := r.skipFrames buffer iadvance (loopFrames nframes r.nchannels) (toInt32 r.rdpos)
    (some loop.1, { r with rdpos := loop.2, balance := ↑(wrap32 (ibalance - ireadframes)) })

/-- The last branch of `read`, which only copies. -/
def readReblock (r : DynamicResampler α) (buffer : Int → β) (nframes : Int) :
    Option (List β) × DynamicResampler α :=
  let ibalance := toInt32 r.balance
  if ibalance < nframes then (none, r)
  else
    let pos := toInt32 r.rdpos
    let stop := pos + nframes
    if stop > r.size then
      let n2 := stop - r.size
      let data := samples buffer (pos * r.nchannels) ((r.size - pos) * r.nchannels) ++
        samples buffer 0 (n2 * r.nchannels)
      (some data, { r with rdpos := n2, balance := ↑(wrap32 (ibalance - nframes)) })
    else
      let data := samples buffer (pos * r.nchannels) (nframes * r.nchannels)
      (some data, { r with
        rdpos := ↑(if stop = r.size then 0 else stop)
        balance := ↑(wrap32 (ibalance - nframes)) })

/-- The body of `read`, over what `buffer_[i]` gives and how it is mixed. -/
def readFrom (r : DynamicResampler α) (buffer : Int → β) (mix : Mix β) (nframes : Int) :
    Option (List β) × DynamicResampler α :=
  match r.method with
  | .cubic =>
    r.readFractional latency_cubic (fun pos j =>
      let ipos := toInt32 pos
      mix.cubic (pos - ipos) (buffer ((ipos - 1) * r.nchannels + j))
        (buffer (ipos * r.nchannels + j)) (buffer ((ipos + 1) * r.nchannels + j))
        (buffer ((ipos + 2) * r.nchannels + j))) nframes
  | .linear =>
    r.readFractional latency_linear (fun pos j =>
      let ipos := toInt32 pos
      mix.linear (pos - ipos) (buffer (ipos * r.nchannels + j))
        (buffer ((ipos + 1) * r.nchannels + j))) nframes
  | .hold =>
    r.readFractional 0 (fun pos j => buffer (toInt32 pos * r.nchannels + j)) nframes
  | .skip => r.readSkip buffer nframes
  | .none => r.readReblock buffer nframes

/-- `read`: the samples, if there are enough frames, and the resampler afterwards. -/
def read (mix : Mix α) (r : DynamicResampler α) (nframes : Int) :
    Option (List α) × DynamicResampler α :=
  r.readFrom r.sample mix nframes

/-- What `read` looks at, for each of the samples it returns: the same code on a buffer
that holds its own indices, and mixes them into a list. -/
def accesses (r : DynamicResampler α) (nframes : Int) : Option (List (List Int)) :=
  (r.readFrom (fun i => [i])
    ⟨fun _ a b => a ++ b, fun _ a b c d => a ++ b ++ c ++ d⟩ nframes).1

end DynamicResampler

end Aoo.Resampler
