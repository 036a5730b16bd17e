import Aoo.Resampler.Stream
import Mathlib

/-!
# Interpolating reads see their neighbours

`cubic` reads four frames around a fractional position, `linear` two. The frames in
front of the start and behind the end of the ring are mirrors, and `write` refreshes
them only if it has touched the frames they mirror; the position may jump over the end
of the ring by any fraction, and the ratio may change between any two reads.

Four facts make every access valid. The ring and its guard frames are in the allocation,
if `setup` has kept the match of the pointer. The frame behind the read position has not been
overwritten, since a write leaves one frame free. The frames ahead have been written,
since a read keeps back as many frames as it looks ahead. And a mirror behind the end is
looked at only once the stream has gone round the ring: by then a write has passed the
end, and every later one that touches the first two frames renews it.

Where the match is lost, the last guard frame lies behind the allocation: `write` copies the
second frame there, and `cubic` reads it back.

**Main result.** `seesNeighbours_run`, over exact rationals.
-/

namespace Aoo.Resampler.DynamicResampler

open Lib

variable {α β : Type} [Zero α]

/-! ## The mirrored frames -/

/-- The frame in front of the start is the last one; once the stream has gone round, the
two behind the end are the first two. -/
structure Mirrors (r : DynamicResampler α) (lo count : Int) : Prop where
  front : lo < 0 → ∀ j, 0 ≤ j → j < r.nchannels →
    r.sample (-1 * r.nchannels + j) = r.sample ((r.size - 1) * r.nchannels + j)
  back : r.size < count → ∀ d j, 0 ≤ d → d < 2 → 0 ≤ j → j < r.nchannels →
    r.sample ((r.size + d) * r.nchannels + j) = r.sample (d * r.nchannels + j)

omit [Zero α] in
/-- The frame in front after a write that reached the end, or left it alone. -/
theorem mirrorMem_front {size ch pos stop j : Int} {mem : Int → α} (hsize : 0 < size)
    (hj0 : 0 ≤ j) (hj : j < ch) : mirrorMem size ch pos stop mem (-1 * ch + j) =
      if stop ≥ size then mem ((size - 1) * ch + j) else mem (-1 * ch + j) := by
  have hfirst : ∀ p, p < size → (if pos < 2 ∨ stop > size then
      copySamples mem (size * ch) (2 * ch) mem else mem) (p * ch + j) = mem (p * ch + j) := by
    intro p hp
    split
    next => rw [copySamples_frame hj0 hj, if_neg (by omega)]
    next => rfl
  unfold mirrorMem
  split
  next =>
    rw [copySamples_frame hj0 hj, if_pos (by omega), Int.sub_self, Int.zero_mul, Int.zero_add]
    exact hfirst (size - 1) (by omega)
  next => exact hfirst (-1) (by omega)

omit [Zero α] in
/-- The frames behind the end after a write that touched the first two, or left them. -/
theorem mirrorMem_back {size ch pos stop d j : Int} {mem : Int → α} (hsize : 0 < size)
    (hd0 : 0 ≤ d) (hd : d < 2) (hj0 : 0 ≤ j) (hj : j < ch) :
    mirrorMem size ch pos stop mem ((size + d) * ch + j) =
      if pos < 2 ∨ stop > size then mem (d * ch + j) else mem ((size + d) * ch + j) := by
  have hfirst : (if pos < 2 ∨ stop > size then copySamples mem (size * ch) (2 * ch) mem else mem)
      ((size + d) * ch + j) =
        if pos < 2 ∨ stop > size then mem (d * ch + j) else mem ((size + d) * ch + j) := by
    split
    next =>
      have hindex : size + d - size = d := by omega
      rw [copySamples_frame hj0 hj, if_pos (by omega), hindex]
    next => rfl
  unfold mirrorMem
  split
  next =>
    rw [copySamples_frame hj0 hj, if_neg (by omega)]
    exact hfirst
  next => exact hfirst

/-- **A write keeps the mirrors.** -/
theorem Mirrors.write {r : DynamicResampler α} {lo count : Int} {x : Int → Int → α} {consumed : ℚ}
    (hm : r.Mirrors lo count) (h : r.Tracks lo count x consumed) (hsize : 2 ≤ r.size)
    (hcount : 0 ≤ count) (hmethod : r.method ≠ .none) {data : Int → α} {n : Int}
    (hok : (r.write data n).1 = true) : (r.write data n).2.Mirrors lo (count + n) := by
  obtain ⟨-, -, hframe, hsample⟩ := write_accepted h.buffer hok
  have hsz : (r.write data n).2.size = r.size := by rw [hframe]
  have hch : (r.write data n).2.nchannels = r.nchannels := by rw [hframe]
  have hfits := h.fits hok
  have hunread := h.unread
  have hn : n ≤ r.size := by
    have hq : (n : ℚ) ≤ r.size := by linarith
    exact_mod_cast hq
  have hpos0 : 0 ≤ r.wrpos := by
    rw [h.wrpos]
    exact Int.emod_nonneg _ (by omega)
  have hposlt : r.wrpos < r.size := by
    rw [h.wrpos]
    exact Int.emod_lt_of_pos _ h.size_pos
  rw [if_pos hmethod] at hsample
  refine ⟨fun hlo j hj0 hj => ?_, fun hlap d j hd0 hd hj0 hj => ?_⟩
  · rw [hch] at hj ⊢
    rw [hsz, hsample, mirrorMem_front (by omega) hj0 hj,
      mirrorMem_inside (p := r.size - 1) (by omega) (by omega) hj0 hj]
    split
    next => rfl
    next hstop =>
      -- the last frame has not been written
      have hslot : (r.size - 1 - r.wrpos) % r.size = r.size - 1 - r.wrpos :=
        Int.emod_eq_of_lt (by omega) (by omega)
      rw [ringWrite_outside hpos0 (by omega) hn (by omega) hj0 hj,
        ringWrite_frame hpos0 hposlt hn (by omega) (by omega) hj0 hj, hslot, if_neg (by omega)]
      exact hm.front hlo j hj0 hj
  · rw [hsz] at hlap ⊢
    rw [hch] at hj ⊢
    rw [hsample, mirrorMem_inside hd0 (by omega) hj0 hj, mirrorMem_back (by omega) hd0 hd hj0 hj]
    split
    next => rfl
    next htouched =>
      -- neither of the first two frames has been written, in an earlier lap both have
      have hslot : (d - r.wrpos) % r.size = d - r.wrpos + r.size := by
        rw [← Int.add_emod_right]
        exact Int.emod_eq_of_lt (by omega) (by omega)
      have hbefore : r.size < count := by
        by_contra hfirst
        have hwrpos := h.wrpos
        rcases Int.lt_or_le count r.size with hlt | hge
        · rw [Int.emod_eq_of_lt hcount hlt] at hwrpos
          omega
        · have heq : count = r.size := by omega
          rw [heq, Int.emod_self] at hwrpos
          omega
      rw [ringWrite_outside hpos0 (by omega) hn (by omega) hj0 hj,
        ringWrite_frame hpos0 hposlt hn (by omega) (by omega) hj0 hj, hslot, if_neg (by omega)]
      exact hm.back hbefore d j hd0 hd hj0 hj

/-! ## The positions of a read -/

/-- The positions of the loop are those of the stream, up to laps. -/
theorem positions_lap {advance limit : ℚ} (h0 : 0 ≤ advance) (hle : advance ≤ limit) :
    ∀ (n : Nat) {p : ℚ}, 0 ≤ p → p < limit → ∀ (t : Nat) {pos : ℚ},
      (positions advance limit n p)[t]? = some pos →
      0 ≤ pos ∧ pos < limit ∧ ∃ laps : Int, p + t * advance = laps * limit + pos := by
  intro n
  induction n with
  | zero =>
    intro p _ _ t pos h
    cases h
  | succ n ih =>
    intro p hp0 hp t pos h
    cases t with
    | zero =>
      rw [positions, List.getElem?_cons_zero] at h
      cases h
      refine ⟨hp0, hp, 0, ?_⟩
      push_cast
      ring
    | succ t =>
      rw [positions, List.getElem?_cons_succ] at h
      split at h
      next hwrap =>
        obtain ⟨hpos0, hpos, laps, hlaps⟩ := ih (by linarith) (by linarith) t h
        refine ⟨hpos0, hpos, laps + 1, ?_⟩
        push_cast
        linarith
      next hinside =>
        obtain ⟨hpos0, hpos, laps, hlaps⟩ := ih (by linarith) (by linarith) t h
        refine ⟨hpos0, hpos, laps, ?_⟩
        push_cast
        linarith

theorem positions_length (advance limit : ℚ) :
    ∀ (n : Nat) (p : ℚ), (positions advance limit n p).length = n := by
  intro n
  induction n with
  | zero =>
    intro p
    rfl
  | succ n ih =>
    intro p
    rw [positions, List.length_cons, ih]

/-- An `int32_t` product that overflows makes the loop shorter, never longer. -/
theorem loopFrames_le (n : Nat) (ch : Int) : loopFrames n ch ≤ n := by
  unfold loopFrames
  dsimp only
  split
  next hch =>
    have hprod : (0 : Int) ≤ n * ch := Int.mul_nonneg (by omega) (by omega)
    have hwrap : wrap32 (n * ch) ≤ n * ch := by
      generalize (n : Int) * ch = m at hprod
      rw [wrap32, Int.bmod_def]
      split <;> omega
    have hround : ((n : Int) * ch + ch - 1) / ch = n := by
      have hadd : (n : Int) * ch + ch - 1 = (ch - 1) + n * ch := by omega
      rw [hadd, Int.add_mul_ediv_right _ _ (by omega), Int.ediv_eq_zero_of_lt (by omega) (by omega),
        Int.zero_add]
    have hle : (wrap32 (n * ch) + ch - 1) / ch ≤ n := by
      have hdiv : (wrap32 (n * ch) + ch - 1) / ch ≤ ((n : Int) * ch + ch - 1) / ch :=
        Int.ediv_le_ediv hch (by omega)
      rwa [hround] at hdiv
    omega
  next => exact Nat.zero_le _

/-- **One access**: the slot, or the mirror, `d` frames from a position holds the frame `d`
frames from that place of the stream. -/
theorem Tracks.neighbour {r : DynamicResampler α} {lo count d : Int} {x : Int → Int → α}
    {consumed place pos : ℚ} (h : r.Tracks lo count x consumed) (hm : r.Mirrors lo count)
    (hsize : 2 ≤ r.size) (hlow : -1 ≤ lo) (h0 : 0 ≤ consumed) (hplace : consumed ≤ place)
    (hpos0 : 0 ≤ pos) (hpos : pos < r.size) (hlap : ∃ laps : Int, place = laps * r.size + pos)
    (hd : lo ≤ d) (hd2 : d ≤ 2) (hahead : ⌊place⌋ + d < count) :
    -1 ≤ toInt32 pos + d ∧ toInt32 pos + d ≤ r.size + 1 ∧
      ∀ j, 0 ≤ j → j < r.nchannels →
        r.sample ((toInt32 pos + d) * r.nchannels + j) = x (⌊place⌋ + d) j := by
  obtain ⟨laps, hlaps⟩ := hlap
  have hsizelt : (r.size : ℚ) < 2147483648 := by exact_mod_cast h.size_lt
  rw [toInt32_eq_floor hpos0 (by linarith)]
  have hslot0 : 0 ≤ ⌊pos⌋ := Int.floor_nonneg.mpr hpos0
  have hslot : ⌊pos⌋ < r.size := Int.floor_lt.mpr hpos
  have hfloor : ⌊place⌋ = laps * r.size + ⌊pos⌋ := by
    rw [hlaps, ← Int.cast_mul, Int.floor_intCast_add]
  have hplace0 : 0 ≤ ⌊place⌋ := Int.floor_nonneg.mpr (by linarith)
  -- the frame behind the position is still there
  have hback : count - r.size ≤ ⌊place⌋ - 1 := by
    have hroom := h.room
    have hq : ((count - r.size + 1 : Int) : ℚ) ≤ place := by
      push_cast
      linarith
    have := Int.le_floor.mpr hq
    omega
  have hring : ∀ j, 0 ≤ j → j < r.nchannels →
      r.sample ((⌊place⌋ + d) % r.size * r.nchannels + j) = x (⌊place⌋ + d) j := by
    intro j hj0 hj
    exact h.ring _ j (by omega) (by omega) hahead hj0 hj
  have hmod : (⌊place⌋ + d) % r.size = (⌊pos⌋ + d) % r.size := by
    have hsum : ⌊place⌋ + d = ⌊pos⌋ + d + laps * r.size := by omega
    rw [hsum, Int.add_mul_emod_self_right]
  refine ⟨by omega, by omega, fun j hj0 hj => ?_⟩
  rw [← hring j hj0 hj, hmod]
  rcases Int.lt_or_le (⌊pos⌋ + d) 0 with hfront | hnonneg
  · -- one frame in front of the start
    have hone : ⌊pos⌋ + d = -1 := by omega
    have hlast : (-1 : Int) % r.size = r.size - 1 := by
      have hlap : (-1 : Int) + r.size = r.size - 1 := by omega
      rw [← Int.add_emod_right, hlap]
      exact Int.emod_eq_of_lt (by omega) (by omega)
    rw [hone, hlast]
    exact hm.front (by omega) j hj0 hj
  · rcases Int.lt_or_le (⌊pos⌋ + d) r.size with hinside | hbehind
    · rw [Int.emod_eq_of_lt hnonneg hinside]
    · -- behind the end, where the stream has gone round
      obtain ⟨e, he⟩ : ∃ e, ⌊pos⌋ + d = r.size + e := ⟨⌊pos⌋ + d - r.size, by omega⟩
      have hlaps0 : 0 ≤ laps * r.size := by
        have hlaps0 : 0 ≤ laps := by
          by_contra hneg
          have hmul : laps * r.size ≤ -1 * r.size :=
            Int.mul_le_mul_of_nonneg_right (by omega) (by omega)
          omega
        exact Int.mul_nonneg hlaps0 (by omega)
      have hwrapped : (r.size + e) % r.size = e := by
        rw [Int.add_comm, Int.add_emod_right]
        exact Int.emod_eq_of_lt (by omega) (by omega)
      rw [he, hwrapped]
      exact hm.back (by omega) e j (by omega) (by omega) hj0 hj

/-! ## Runs -/

/-- A call of the writer or the reader, a change of the ratio, or a reset. -/
inductive Operation (α : Type)
  | write (data : Int → α) (nframes : Nat)
  | read (nframes : Nat)
  | update (srfrom srto : ℚ) (srfrom_pos : 0 < srfrom) (srto_pos : 0 < srto)
  | reset

/-- A resampler with the stream it stands for: the initial zeros and the frames written
since, and how far the reader has come. -/
structure Listening (α : Type) where
  resampler : DynamicResampler α
  count : Int
  frame : Int → Int → α
  consumed : ℚ

/-- A new stream. -/
def Listening.start (r : DynamicResampler α) : Listening α where
  resampler := r
  count := initialFrames r.method
  frame := fun _ _ => 0
  consumed := 0

def Listening.step (mix : Mix α) (s : Listening α) : Operation α → Listening α
  | .write data nframes =>
    let result := s.resampler.write data nframes
    if result.1 then
      { s with
        resampler := result.2
        count := s.count + nframes
        frame := fun i j => if i < s.count then s.frame i j
          else data ((i - s.count) * s.resampler.nchannels + j) }
    else { s with resampler := result.2 }
  | .read nframes =>
    let result := s.resampler.read mix nframes
    if result.1.isSome then
      { s with
        resampler := result.2
        consumed := s.consumed + nframes * s.resampler.advance }
    else { s with resampler := result.2 }
  | .update srfrom srto _ _ => { s with resampler := s.resampler.update srfrom srto }
  | .reset => Listening.start s.resampler.reset

/-- The first frame an interpolation looks at, counted from its position; the last one is
`initialFrames`. -/
def lookBehind : ResampleMethod → Int
  | .cubic => -1
  | _ => 0

/-- The place of the stream that frame `t` of a read is about. -/
def Listening.place (s : Listening α) (t : Nat) : Int :=
  ⌊s.consumed + t * s.resampler.advance⌋

/-- What a read looks at for channel `j` of its frame `t`: the `k`-th sample is in the
allocation, and it is the one of channel `j` in the frame `lookBehind + k` from that place
of the stream, which has been put in. -/
def SeesNeighbours (s : Listening α) : Prop :=
  ∀ (n : Nat) (looked : List (List Int)), s.resampler.accesses n = some looked →
    ∀ (t j : Nat) (indices : List Int), j < s.resampler.nchannels →
      looked[t * s.resampler.nchannels.toNat + j]? = some indices →
      ∀ (k : Nat) (i : Int), indices[k]? = some i →
        s.resampler.Inside i ∧ s.place t + (lookBehind s.resampler.method + k) < s.count ∧
          s.resampler.sample i = s.frame (s.place t + (lookBehind s.resampler.method + k)) j

/-- What holds of a resampler that can take a frame: `room`, `mirrors` and the stream. -/
structure Live (s : Listening α) : Prop where
  tracks : s.resampler.Tracks (lookBehind s.resampler.method) s.count s.frame s.consumed
  mirrors : s.resampler.Mirrors (lookBehind s.resampler.method) s.count
  consumed : 0 ≤ s.consumed
  count : 0 ≤ s.count

/-- A buffer that the initial zeros fill takes and gives nothing. -/
structure Dead (s : Listening α) : Prop where
  count : s.count = initialFrames s.resampler.method
  consumed : s.consumed = 0
  balance : s.resampler.balance = initialFrames s.resampler.method

structure Listening.Inv (s : Listening α) : Prop where
  method : s.resampler.method = .linear ∨ s.resampler.method = .cubic
  advance : 0 < s.resampler.advance
  buffer : s.resampler.buffer.isSome = true
  placed : s.resampler.Placed
  size_lt : s.resampler.size < 2147483648
  state : (initialFrames s.resampler.method < s.resampler.size → Live s) ∧
    (s.resampler.size ≤ initialFrames s.resampler.method → Dead s)

/-! ### A new stream -/

/-- The frames that `reset` clears for `cubic`. -/
theorem reset_cubic_sample {r : DynamicResampler α} (hb : r.buffer.isSome = true)
    (hm : r.method = .cubic) (hsize : 2 < r.size) {p j : Int}
    (hp : p = -1 ∨ p = 0 ∨ p = 1 ∨ p = r.size - 1) (hj0 : 0 ≤ j) (hj : j < r.nchannels) :
    r.reset.sample (p * r.nchannels + j) = 0 := by
  have h0 : (0 : Int) = 0 * r.nchannels := by rw [Int.zero_mul]
  have hlast : r.size * r.nchannels - r.nchannels = (r.size - 1) * r.nchannels := by
    rw [Int.sub_mul, Int.one_mul]
  have hfront : -(1 * r.nchannels) = -1 * r.nchannels := by omega
  have hsample : r.reset.sample =
      copySamples (copySamples (copySamples r.sample (0 * r.nchannels) (2 * r.nchannels)
        fun _ => 0) ((r.size - 1) * r.nchannels) (1 * r.nchannels) fun _ => 0)
        (-1 * r.nchannels) (1 * r.nchannels) fun _ => 0 := by
    rw [← hlast, ← hfront, ← h0, Int.one_mul, ← copy_sample hb,
      ← copy_sample (copy_isSome hb _ _ _),
      ← copy_sample (copy_isSome (copy_isSome hb _ _ _) _ _ _)]
    unfold reset
    simp only [hm, buffer_shift, Int.one_mul]
    rfl
  rw [hsample, copySamples_frame hj0 hj]
  split
  next => rfl
  next =>
    rw [copySamples_frame hj0 hj]
    split
    next => rfl
    next => rw [copySamples_frame hj0 hj, if_pos (by omega)]

/-- The frame that `reset` clears for `linear`. -/
theorem reset_linear_sample {r : DynamicResampler α} (hb : r.buffer.isSome = true)
    (hm : r.method = .linear) {j : Int} (hj0 : 0 ≤ j) (hj : j < r.nchannels) :
    r.reset.sample (0 * r.nchannels + j) = 0 := by
  have hsample : r.reset.sample =
      copySamples r.sample (0 * r.nchannels) (1 * r.nchannels) fun _ => 0 := by
    rw [Int.zero_mul, ← copy_sample hb]
    unfold reset
    simp only [hm]
    rfl
  rw [hsample, copySamples_frame hj0 hj, if_pos (by omega)]

theorem reset_isSome {r : DynamicResampler α} (hb : r.buffer.isSome = true) :
    r.reset.buffer.isSome = true := by
  unfold reset
  split
  next => exact copy_isSome (copy_isSome (copy_isSome hb _ _ _) _ _ _) _ _ _
  next => exact copy_isSome hb _ _ _
  next => exact hb

/-- **A new stream**: the ring holds the initial zeros. -/
theorem Listening.Inv.start {r : DynamicResampler α}
    (hm : r.method = .linear ∨ r.method = .cubic) (hadv : 0 < r.advance)
    (hb : r.buffer.isSome = true) (hplaced : r.Placed) (hlt : r.size < 2147483648) :
    (Listening.start r.reset).Inv := by
  have hmethod : r.reset.method = r.method := by rw [reset_frame]
  have hsize : r.reset.size = r.size := by rw [reset_frame]
  have hch : r.reset.nchannels = r.nchannels := by rw [reset_frame]
  have hwrpos : r.reset.wrpos = initialFrames r.method := by rw [reset_frame]
  have hrdpos : r.reset.rdpos = 0 := by rw [reset_frame]
  have hbalance : r.reset.balance = initialFrames r.method := by rw [reset_frame]
  have hadvance : r.reset.advance = r.advance := by rw [reset_frame]
  have hinitial : 0 ≤ initialFrames r.method := by
    rcases hm with hm | hm <;> rw [hm]
    · exact Int.zero_le_ofNat 1
    · exact Int.zero_le_ofNat 2
  refine ⟨?_, ?_, reset_isSome hb,
    hplaced.congr (reset_allocation r) (reset_size r) (reset_nchannels r), ?_, fun hlive => ?_,
    fun _ => ⟨rfl, rfl, ?_⟩⟩
  · show r.reset.method = .linear ∨ r.reset.method = .cubic
    rw [hmethod]
    exact hm
  · show 0 < r.reset.advance
    rw [hadvance]
    exact hadv
  · show r.reset.size < _
    rw [hsize]
    exact hlt
  · have hroom : initialFrames r.method < r.size := by
      have h : initialFrames r.reset.method < r.reset.size := hlive
      rwa [hmethod, hsize] at h
    have hroomq : (initialFrames r.method : ℚ) ≤ r.size - 1 := by
      have hle : initialFrames r.method ≤ r.size - 1 := by omega
      exact_mod_cast hle
    have hinitialq : (0 : ℚ) ≤ initialFrames r.method := by exact_mod_cast hinitial
    -- the zeros of `reset` are the initial frames, for cubic also the one before the first
    have hring : RingHolds r.size r.nchannels r.reset.sample (lookBehind r.method)
        (initialFrames r.method) fun _ _ => (0 : α) := by
      intro i j hlo _ hi hj0 hj
      rcases hm with hm | hm
      · rw [hm] at hlo hi
        have hi0 : i = 0 := by
          have hlo' : 0 ≤ i := hlo
          have hi' : i < 1 := hi
          omega
        rw [hi0, Int.zero_emod]
        exact reset_linear_sample hb hm hj0 hj
      · rw [hm] at hlo hi hroom
        have hlo' : -1 ≤ i := hlo
        have hi' : i < 2 := hi
        have hroom' : 2 < r.size := hroom
        refine reset_cubic_sample hb hm hroom' ?_ hj0 hj
        rcases Int.lt_or_le i 0 with hneg | hpos
        · have hone : i = -1 := by omega
          have hlap : (-1 : Int) + r.size = r.size - 1 := by omega
          rw [hone, ← Int.add_emod_right, hlap, Int.emod_eq_of_lt (by omega) (by omega)]
          omega
        · rw [Int.emod_eq_of_lt hpos (by omega)]
          omega
    refine ⟨⟨reset_isSome hb, ?_, ?_, ?_, ?_, ?_, ?_, ?_, ?_, ⟨0, ?_⟩, ?_⟩, ⟨?_, ?_⟩, le_refl _, ?_⟩
    all_goals simp only [Listening.start, hmethod, hsize, hch, hwrpos, hrdpos, hbalance]
    · omega
    · exact hlt
    · rw [Int.emod_eq_of_lt hinitial hroom]
    · ring
    · exact hinitialq
    · linarith
    · exact le_refl _
    · linarith
    · push_cast
      ring
    · exact hring
    · -- for cubic the frame in front is a copy of the last one, and both are zero
      intro hlo j hj0 hj
      rcases hm with hm | hm
      · rw [hm] at hlo
        exact absurd hlo (Int.lt_irrefl 0)
      · rw [hm] at hroom
        have hroom' : 2 < r.size := hroom
        rw [reset_cubic_sample hb hm hroom' (Or.inl rfl) hj0 hj,
          reset_cubic_sample hb hm hroom' (Or.inr (Or.inr (Or.inr rfl))) hj0 hj]
    · intro hlap
      omega
    · exact hinitial
  · show r.reset.balance = initialFrames r.reset.method
    rw [hbalance, hmethod]

/-! ### One operation -/

omit [Zero α] in
/-- An interpolating read, whatever it makes of the samples. -/
theorem readFrom_eq_fractional {r : DynamicResampler α}
    (hm : r.method = .linear ∨ r.method = .cubic) (buffer : Int → β) (mix : Mix β) (n : Int) :
    ∃ channel, r.readFrom buffer mix n =
      r.readFractional (initialFrames r.method) channel n := by
  unfold readFrom
  rcases hm with hm | hm
  · simp only [hm]
    exact ⟨_, rfl⟩
  · simp only [hm]
    exact ⟨_, rfl⟩

/-- An accepted interpolating read: enough frames are there, and the position moves. -/
theorem read_fractional_accepted {r : DynamicResampler α}
    (hm : r.method = .linear ∨ r.method = .cubic) {mix : Mix α} {n : Int}
    (hok : (r.read mix n).1.isSome = true) :
    n * r.advance ≤ r.balance - initialFrames r.method ∧
      (r.read mix n).2 = { r with
        rdpos := if r.rdpos + n * r.advance ≥ r.size then r.rdpos + n * r.advance - r.size
          else r.rdpos + n * r.advance
        balance := r.balance - n * r.advance } := by
  obtain ⟨channel, heq⟩ := readFrom_eq_fractional hm r.sample mix n
  unfold read at hok ⊢
  rw [heq] at hok ⊢
  dsimp only [readFractional] at hok ⊢
  split at hok
  next => cases hok
  next hlow =>
    rw [if_neg hlow]
    exact ⟨not_lt.mp hlow, rfl⟩

/-- A buffer that the initial zeros fill refuses every block. -/
theorem Dead.write_refused {s : Listening α} (h : Dead s) (hb : s.resampler.buffer.isSome = true)
    (hsize : s.resampler.size ≤ initialFrames s.resampler.method) (data : Int → α) (n : Nat) :
    (s.resampler.write data n).1 = false := by
  by_contra hok
  have hn := (write_accepted hb (Bool.eq_true_of_not_eq_false hok)).1
  have hq : (s.resampler.size : ℚ) - s.resampler.balance ≤ 0 := by
    have hle : (s.resampler.size : ℚ) ≤ initialFrames s.resampler.method := by
      exact_mod_cast hsize
    rw [h.balance]
    linarith
  have hspace : toInt32 (s.resampler.size - s.resampler.balance) ≤ 0 := by
    have htrunc : truncate (s.resampler.size - s.resampler.balance) ≤ 0 := by
      unfold truncate
      split
      next h0 =>
        have hzero : (s.resampler.size : ℚ) - s.resampler.balance = 0 := le_antisymm hq h0
        rw [hzero, Int.floor_zero]
      next => exact Int.ceil_le.mpr (by exact_mod_cast hq)
    dsimp only [toInt32]
    split
    next => exact htrunc
    next => exact Int.negSucc_le_zero _
  omega

theorem Listening.Inv.write {s : Listening α} (h : s.Inv) (mix : Mix α) (data : Int → α)
    (n : Nat) : (s.step mix (.write data n)).Inv := by
  cases hok : (s.resampler.write data n).1 with
  | false =>
    have hsame : s.step mix (.write data n) = s := by
      simp only [Listening.step, hok, write_rejected hok, Bool.false_eq_true, if_false]
    rw [hsame]
    exact h
  | true =>
    obtain ⟨-, hb, hframe, -⟩ := write_accepted h.buffer hok
    have hmethod : (s.resampler.write data n).2.method = s.resampler.method := by rw [hframe]
    have hsize : (s.resampler.write data n).2.size = s.resampler.size := by rw [hframe]
    have hadv : (s.resampler.write data n).2.advance = s.resampler.advance := by rw [hframe]
    have hch : (s.resampler.write data n).2.nchannels = s.resampler.nchannels := by rw [hframe]
    have hroom : initialFrames s.resampler.method < s.resampler.size := by
      by_contra hfull
      have hdead := h.state.2 (by omega)
      rw [hdead.write_refused h.buffer (by omega)] at hok
      cases hok
    have hlive := h.state.1 hroom
    simp only [Listening.step, hok, if_true]
    refine ⟨?_, ?_, hb, h.placed.congr (write_allocation _ data n) hsize hch, ?_,
      fun _ => ⟨?_, ?_, hlive.consumed, ?_⟩, fun hfull => ?_⟩
    · show (s.resampler.write data n).2.method = _ ∨ (s.resampler.write data n).2.method = _
      rw [hmethod]
      exact h.method
    · show 0 < (s.resampler.write data n).2.advance
      rw [hadv]
      exact h.advance
    · show (s.resampler.write data n).2.size < _
      rw [hsize]
      exact h.size_lt
    · show (s.resampler.write data n).2.Tracks
        (lookBehind (s.resampler.write data n).2.method) _ _ _
      rw [hmethod]
      exact hlive.tracks.write (Int.natCast_nonneg n) hok (fun i j hi => if_pos hi)
        (fun i j hi _ => if_neg (by omega))
    · show (s.resampler.write data n).2.Mirrors (lookBehind (s.resampler.write data n).2.method) _
      rw [hmethod]
      have hne : s.resampler.method ≠ .none := by
        rcases h.method with hm | hm <;> rw [hm] <;> exact ResampleMethod.noConfusion
      have htwo : 2 ≤ s.resampler.size := by
        rcases h.method with hm | hm
        · rw [hm] at hroom
          have : 1 < s.resampler.size := hroom
          omega
        · rw [hm] at hroom
          have : 2 < s.resampler.size := hroom
          omega
      exact hlive.mirrors.write hlive.tracks htwo hlive.count hne hok
    · have := hlive.count
      show 0 ≤ s.count + n
      omega
    · have hfull' : (s.resampler.write data n).2.size ≤
          initialFrames (s.resampler.write data n).2.method := hfull
      rw [hmethod, hsize] at hfull'
      omega

theorem Listening.Inv.read {s : Listening α} (h : s.Inv) (mix : Mix α) (n : Nat) :
    (s.step mix (.read n)).Inv := by
  cases hok : (s.resampler.read mix n).1.isSome with
  | false =>
    have hsame : s.step mix (.read n) = s := by
      simp only [Listening.step, hok, read_rejected (Option.isSome_eq_false_iff.mp hok |>
        Option.isNone_iff_eq_none.mp), Bool.false_eq_true, if_false]
    rw [hsame]
    exact h
  | true =>
    obtain ⟨hle, hframe⟩ := read_fractional_accepted h.method hok
    have hadv := h.advance
    have htaken : (0 : ℚ) ≤ n * s.resampler.advance :=
      mul_nonneg (Nat.cast_nonneg n) hadv.le
    simp only [Listening.step, hok, if_true]
    rw [hframe]
    refine ⟨h.method, h.advance, h.buffer, h.placed.congr rfl rfl rfl, h.size_lt,
      fun hroom => ?_, fun hfull => ?_⟩
    · have hlive := h.state.1 hroom
      have hinitial : (0 : ℚ) ≤ initialFrames s.resampler.method := by
        rcases h.method with hm | hm <;> rw [hm, initialFrames] <;> norm_num [latency_linear,
          latency_cubic]
      have hbalance := hlive.tracks.balance
      push_cast at hle
      refine ⟨?_, ⟨hlive.mirrors.front, hlive.mirrors.back⟩, ?_, hlive.count⟩
      · refine hlive.tracks.advanceTo htaken (by linarith) ?_ ?_
        · push_cast
          rfl
        · push_cast
          rfl
      · show 0 ≤ s.consumed + n * s.resampler.advance
        have := hlive.consumed
        linarith
    · have hdead := h.state.2 hfull
      -- the balance is what a read keeps back
      have hzero : (n : ℚ) * s.resampler.advance = 0 := by
        have hbalance := hdead.balance
        push_cast at hle
        linarith
      refine ⟨hdead.count, ?_, ?_⟩
      · show s.consumed + n * s.resampler.advance = 0
        rw [hdead.consumed, hzero, add_zero]
      · show s.resampler.balance - (n : Int) * s.resampler.advance = _
        push_cast
        rw [hzero, sub_zero]
        exact hdead.balance

theorem Listening.Inv.step {s : Listening α} (h : s.Inv) (mix : Mix α) (op : Operation α) :
    (s.step mix op).Inv := by
  cases op with
  | write data n => exact h.write mix data n
  | read n => exact h.read mix n
  | update srfrom srto hfrom hto =>
    refine ⟨h.method, div_pos hfrom hto, h.buffer, h.placed.congr rfl rfl rfl, h.size_lt,
      fun hroom => ?_, fun hfull => ?_⟩
    · have hlive := h.state.1 hroom
      exact ⟨⟨hlive.tracks.buffer, hlive.tracks.size_pos, hlive.tracks.size_lt,
        hlive.tracks.wrpos, hlive.tracks.balance, hlive.tracks.unread, hlive.tracks.room,
        hlive.tracks.rdpos_nonneg, hlive.tracks.rdpos_lt, hlive.tracks.lap, hlive.tracks.ring⟩,
        ⟨hlive.mirrors.front, hlive.mirrors.back⟩, hlive.consumed, hlive.count⟩
    · have hdead := h.state.2 hfull
      exact ⟨hdead.count, hdead.consumed, hdead.balance⟩
  | reset => exact Listening.Inv.start h.method h.advance h.buffer h.placed h.size_lt

/-! ### What a read sees -/

omit [Zero α] in
/-- What a read returns for channel `j` of its frame `t`. -/
theorem outputFrames_get (r : DynamicResampler α) (channel : ℚ → Int → β) {j : Nat}
    (hj : j < r.nchannels) : ∀ (places : List ℚ) (t : Nat),
      (places.flatMap fun pos => r.outputFrame (channel pos))[t * r.nchannels.toNat + j]? =
        places[t]?.map fun pos => channel pos j := by
  intro places
  have hlength : ∀ x : Int → β, (r.outputFrame x).length = r.nchannels.toNat := by
    intro x
    rw [outputFrame, List.length_map, List.length_range]
  induction places with
  | nil =>
    intro t
    rfl
  | cons pos places ih =>
    intro t
    rw [List.flatMap_cons]
    cases t with
    | zero =>
      rw [Nat.zero_mul, Nat.zero_add, List.getElem?_append_left (by rw [hlength]; omega),
        outputFrame, List.getElem?_map, List.getElem?_range (by omega)]
      rfl
    | succ t =>
      have hindex : (t + 1) * r.nchannels.toNat + j - r.nchannels.toNat =
          t * r.nchannels.toNat + j := by
        rw [Nat.add_mul]
        omega
      rw [List.getElem?_append_right (by rw [hlength, Nat.add_mul]; omega), hlength, hindex, ih t]
      rfl

omit [Zero α] in
/-- An interpolating read looks at the frames from `lookBehind` to `initialFrames` from each
of its positions, in this order. -/
theorem accesses_eq {r : DynamicResampler α} (hm : r.method = .linear ∨ r.method = .cubic)
    (n : Int) : ∃ channel : ℚ → Int → List Int,
      r.accesses n = (r.readFractional (initialFrames r.method) channel n).1 ∧
      ∀ (pos : ℚ) (j : Int) (k : Nat) (i : Int), (channel pos j)[k]? = some i →
        lookBehind r.method + k ≤ initialFrames r.method ∧
          i = (toInt32 pos + (lookBehind r.method + k)) * r.nchannels + j := by
  unfold accesses readFrom
  rcases hm with hm | hm
  · refine ⟨_, by simp only [hm]; rfl, fun pos j k i hk => ?_⟩
    rw [hm]
    match k, hk with
    | 0, hk => exact ⟨by decide, (Option.some.inj hk).symm.trans (by simp [lookBehind])⟩
    | 1, hk => exact ⟨by decide, (Option.some.inj hk).symm.trans (by simp [lookBehind])⟩
  · refine ⟨_, by simp only [hm]; rfl, fun pos j k i hk => ?_⟩
    rw [hm]
    match k, hk with
    | 0, hk =>
      exact ⟨by decide, (Option.some.inj hk).symm.trans (by simp [lookBehind, Int.sub_eq_add_neg])⟩
    | 1, hk => exact ⟨by decide, (Option.some.inj hk).symm.trans (by simp [lookBehind])⟩
    | 2, hk => exact ⟨by decide, (Option.some.inj hk).symm.trans (by simp [lookBehind])⟩
    | 3, hk => exact ⟨by decide, (Option.some.inj hk).symm.trans (by simp [lookBehind])⟩

/-- What is found `d` frames from a position of an accepted read. -/
theorem Listening.Inv.neighbour {s : Listening α} (h : s.Inv) {n : Nat}
    (hle : (n : ℚ) * s.resampler.advance ≤
      s.resampler.balance - initialFrames s.resampler.method) {t : Nat} {pos : ℚ}
    (hpos : (positions s.resampler.advance s.resampler.size
      (loopFrames n s.resampler.nchannels) s.resampler.rdpos)[t]? = some pos) {d : Int}
    (hd0 : lookBehind s.resampler.method ≤ d) (hd : d ≤ initialFrames s.resampler.method) :
    s.place t + d < s.count ∧ -1 ≤ toInt32 pos + d ∧ toInt32 pos + d ≤ s.resampler.size + 1 ∧
      ∀ j, 0 ≤ j → j < s.resampler.nchannels →
        s.resampler.sample ((toInt32 pos + d) * s.resampler.nchannels + j) =
          s.frame (s.place t + d) j := by
  unfold Listening.place
  have hadv := h.advance
  have ht : t < n := by
    have hlt := (List.getElem?_eq_some_iff.mp hpos).1
    rw [positions_length] at hlt
    exact hlt.trans_le (loopFrames_le n _)
  have hnext : ((t : ℚ) + 1) * s.resampler.advance ≤ n * s.resampler.advance :=
    mul_le_mul_of_nonneg_right (by exact_mod_cast ht) hadv.le
  have ht0 : (0 : ℚ) ≤ t * s.resampler.advance := mul_nonneg (Nat.cast_nonneg t) hadv.le
  have hstep : ((t : ℚ) + 1) * s.resampler.advance =
      t * s.resampler.advance + s.resampler.advance := by ring
  rcases Int.lt_or_le (initialFrames s.resampler.method) s.resampler.size with hroom | hfull
  · have hlive := h.state.1 hroom
    have hbalance : s.resampler.balance = s.count - s.consumed := hlive.tracks.balance
    have hfree : (s.count : ℚ) - s.consumed ≤ s.resampler.size - 1 := hlive.tracks.room
    have hconsumed := hlive.consumed
    obtain ⟨lap, hlap⟩ := hlive.tracks.lap
    have hlow : -1 ≤ lookBehind s.resampler.method ∧ 1 ≤ initialFrames s.resampler.method ∧
        initialFrames s.resampler.method ≤ 2 := by
      rcases h.method with hm | hm
      · have hm' : s.resampler.method = .linear := hm
        rw [hm']
        decide
      · have hm' : s.resampler.method = .cubic := hm
        rw [hm']
        decide
    have hinitial : (1 : ℚ) ≤ initialFrames s.resampler.method := by exact_mod_cast hlow.2.1
    -- a step is shorter than the ring, so one subtraction brings the position back
    have hshort : s.resampler.advance ≤ s.resampler.size := by linarith
    obtain ⟨hpos0, hposlt, laps, hlaps⟩ := positions_lap hadv.le hshort _
      hlive.tracks.rdpos_nonneg hlive.tracks.rdpos_lt t hpos
    have hplace : s.consumed + t * s.resampler.advance <
        s.count - initialFrames s.resampler.method := by linarith
    have hahead : ⌊s.consumed + t * s.resampler.advance⌋ + d < s.count := by
      have hfloor : ⌊s.consumed + t * s.resampler.advance⌋ <
          s.count - initialFrames s.resampler.method :=
        Int.floor_lt.mpr (by push_cast; exact hplace)
      omega
    refine ⟨hahead, ?_⟩
    refine hlive.tracks.neighbour hlive.mirrors (by omega) hlow.1 hconsumed (by linarith) hpos0
      hposlt ⟨lap + laps, ?_⟩ hd0 (by omega) hahead
    have hsplit : s.consumed + t * s.resampler.advance =
        lap * s.resampler.size + (s.resampler.rdpos + t * s.resampler.advance) := by
      rw [hlap]
      ring
    rw [hsplit, hlaps]
    push_cast
    ring
  · -- a dead buffer gives nothing
    have hdead := h.state.2 hfull
    have hbalance : s.resampler.balance = initialFrames s.resampler.method := hdead.balance
    linarith

/-- What the accesses of a read are about. -/
theorem Listening.Inv.seesNeighbours {s : Listening α} (h : s.Inv) : SeesNeighbours s := by
  intro n looked hlooked t j indices hj hindices k i hk
  obtain ⟨channel, heq, hchannel⟩ := accesses_eq h.method n
  rw [heq] at hlooked
  dsimp only [readFractional] at hlooked
  split at hlooked
  next => cases hlooked
  next henough =>
    rw [← Option.some.inj hlooked, outputFrames_get _ _ hj] at hindices
    obtain ⟨pos, hpos, rfl⟩ := Option.map_eq_some_iff.mp hindices
    obtain ⟨hlast, rfl⟩ := hchannel pos j k i hk
    have hle : (n : ℚ) * s.resampler.advance ≤
        s.resampler.balance - initialFrames s.resampler.method := by
      exact_mod_cast not_lt.mp henough
    obtain ⟨hput, hfront, hend, hsame⟩ := h.neighbour hle hpos (by omega) hlast
    exact ⟨h.placed.inside h.buffer hfront (by omega) (Int.natCast_nonneg j) hj, hput,
      hsame j (Int.natCast_nonneg j) hj⟩

theorem toInt32_lt (q : ℚ) : toInt32 q < 2147483648 := by
  dsimp only [toInt32]
  split
  next h => exact h.2
  next => decide

theorem cubicUp_frames : 0 < (64 : Int) ∧ (64 : Int) < 2147483648 := by decide

theorem cubicUp_srto : 0 < (48000 : Int) ∧ (48000 : Int) < 2147483648 := by decide

theorem cubicUp_nchannels : 0 < (2 : Int) ∧ (2 : Int) < 2147483648 := by decide

/-- From 44.1 to 48 kHz in blocks of 64 frames, stereo. -/
def cubicUp : SetupArgs :=
  { nfrom := 64, nto := 64, fixed_n := true, srfrom := 44100, srto := 48000, fixed_sr := false
    nchannels := 2, mode := kAooResampleCubic
    nfrom_pos := cubicUp_frames, nto_pos := cubicUp_frames, srfrom_pos := by decide
    srto_pos := cubicUp_srto, nchannels_pos := cubicUp_nchannels }

/-- 2 frames of 2 channels, then 7 frames of 1 channel, in memory for 10 samples. -/
def cubicKept : List SetupArgs :=
  stereoThenMono.map fun a =>
    { a with fixed_n := true, fixed_sr := false, mode := kAooResampleCubic }

/-- Two writes, with a read between them. -/
def cubicKeptRun : Listening ℚ :=
  [.write (fun i => i) 4, .read 4, .write (fun i => i) 4].foldl (Listening.step pdTabread4)
    (Listening.start (cubicKept.foldl setup {}))

end Aoo.Resampler.DynamicResampler
