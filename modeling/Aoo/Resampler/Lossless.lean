import Aoo.Resampler.Stream

/-!
# Reblocking and skipping lose nothing

With the method `none` a resampler hands on the frames it is given in blocks of
another size, with `skip` every k-th of them. Three pieces of code walk around the
ring: the copy in `write`, the copy in the reblocking read and the loop of the
skipping read, which tests for the end after every frame. `Session` runs them and
keeps what has been written and read; `Lossless` says that the frames read are the
frames `0, k, 2k, …` of those written.

The skipping read multiplies the number of frames by `k` in `int32_t`, where the
other methods use doubles. A read of so many frames that the product overflows
passes the test for the balance whatever the balance is.

**Main result.** `lossless_run`: in every run whose reads do not overflow, for every
sequence of block sizes.
-/

namespace Aoo.Resampler.DynamicResampler

open Lib

variable {α β : Type} [Zero α]

/-! ## Integer positions -/

/-- Read positions of a stream of which a whole number of frames has been consumed. -/
theorem Tracks.rdpos_eq {r : DynamicResampler α} {lo count R : Int} {x : Int → Int → α}
    (h : r.Tracks lo count x R) : r.rdpos = ((R % r.size : Int) : ℚ) := by
  obtain ⟨lap, hlap⟩ := h.lap
  have hpos : r.rdpos = ((R - lap * r.size : Int) : ℚ) := by
    push_cast
    linarith
  have h0 := h.rdpos_nonneg
  have hlt := h.rdpos_lt
  rw [hpos] at h0 hlt ⊢
  have h0' : 0 ≤ R - lap * r.size := by exact_mod_cast h0
  have hlt' : R - lap * r.size < r.size := by exact_mod_cast hlt
  rw [← Int.emod_eq_of_lt h0' hlt', Int.sub_mul_emod_self_right]

theorem Tracks.toInt32_rdpos {r : DynamicResampler α} {lo count R : Int} {x : Int → Int → α}
    (h : r.Tracks lo count x R) : toInt32 r.rdpos = R % r.size := by
  have hsize := h.size_pos
  have hlt := Int.emod_lt_of_pos R hsize
  rw [h.rdpos_eq]
  exact toInt32_intCast (Int.emod_nonneg R (by omega)) (hlt.trans h.size_lt)

theorem Tracks.toInt32_balance {r : DynamicResampler α} {lo count R : Int} {x : Int → Int → α}
    (h : r.Tracks lo count x R) : toInt32 r.balance = count - R := by
  have hunread : R ≤ count := by exact_mod_cast h.unread
  have hroom : count - R ≤ r.size - 1 := by exact_mod_cast h.room
  have hlt := h.size_lt
  have hcast : r.balance = ((count - R : Int) : ℚ) := by
    rw [h.balance]
    push_cast
    rfl
  rw [hcast]
  exact toInt32_intCast (by omega) (by omega)

/-! ## The frames a read returns -/

omit [Zero α] in
theorem frames_samples {r : DynamicResampler α} {ch : Nat} (hch : r.nchannels = ch)
    (buffer : Int → β) (p : Int) (n : Nat) :
    Frames ch (samples buffer (p * r.nchannels) (n * r.nchannels)) n
      fun i j => buffer ((p + i) * r.nchannels + j) := by
  have hcount : ((n : Int) * ch).toNat = n * ch := by
    rw [← Int.natCast_mul, Int.toNat_natCast]
  rw [samples, hch, hcount]
  exact frames_map_range ch n p buffer

omit [Zero α] in
theorem frames_outputFrame {r : DynamicResampler α} {ch : Nat} (hch : r.nchannels = ch)
    (x : Int → β) : Frames ch (r.outputFrame x) 1 fun _ j => x j := by
  refine ⟨by rw [outputFrame, List.length_map, List.length_range, hch, Int.toNat_natCast,
    Nat.one_mul], fun i hi j hj => ?_⟩
  have hi0 : i = 0 := by omega
  rw [outputFrame, hch, Int.toNat_natCast, List.getElem?_map, hi0, Nat.zero_mul, Nat.zero_add,
    List.getElem?_range hj, Option.map_some]

omit [Zero α] in
/-- The loop of `skip` visits every k-th slot, going round the ring. -/
theorem frames_skipFrames {r : DynamicResampler α} {ch : Nat} (hch : r.nchannels = ch)
    (hsize : 0 < r.size) (buffer : Int → β) {k : Int} (hk0 : 0 ≤ k) (hk : k ≤ r.size) :
    ∀ (n : Nat) (p : Int),
      Frames ch (r.skipFrames buffer k n (p % r.size)).1 n
        (fun i j => buffer ((p + i * k) % r.size * r.nchannels + j)) ∧
      (r.skipFrames buffer k n (p % r.size)).2 = (p + n * k) % r.size := by
  intro n
  induction n with
  | zero =>
    intro p
    refine ⟨frames_nil ch _, ?_⟩
    rw [Int.natCast_zero, Int.zero_mul, Int.add_zero]
    rfl
  | succ n ih =>
    intro p
    have hnext : (if p % r.size + k ≥ r.size then p % r.size + k - r.size else p % r.size + k) =
        (p + k) % r.size := by
      rw [ring_position hsize hk0 hk]
      grind
    obtain ⟨hdata, hpos⟩ := ih (p + k)
    rw [skipFrames]
    dsimp only
    rw [hnext]
    refine ⟨?_, ?_⟩
    · rw [Nat.add_comm n 1]
      refine (frames_outputFrame hch _).append hdata (fun i hi j _ => ?_) (fun i _ j _ => ?_)
      · have hi0 : i = 0 := by omega
        rw [hi0, Int.natCast_zero, Int.zero_mul, Int.add_zero]
      · have hstep : p + ((1 + i : Nat) : Int) * k = p + k + i * k := by
          push_cast
          ring
        rw [hstep]
    · rw [hpos]
      congr 1
      push_cast
      ring

/-- What the ring says about the frame `i` of the stream. -/
theorem Tracks.sample_eq {r : DynamicResampler α} {lo count i j : Int} {x : Int → Int → α}
    {consumed : ℚ} (h : r.Tracks lo count x consumed) (hlo : lo ≤ i) (hread : consumed ≤ i)
    (hi : i < count) (hj0 : 0 ≤ j) (hj : j < r.nchannels) :
    r.sample (i % r.size * r.nchannels + j) = x i j := by
  have hroom := h.room
  have hback : ((count - r.size : Int) : ℚ) ≤ i := by
    push_cast
    linarith
  exact h.ring i j hlo (by exact_mod_cast hback) hi hj0 hj

/-! ## The two reads -/

/-- A value that fits is not changed. -/
theorem wrap32_of_lt {n : Int} (h0 : 0 ≤ n) (h : n < 2147483648) : wrap32 n = n := by
  rw [wrap32]
  exact Int.bmod_eq_of_le_mul_two (by omega) (by omega)

/-- A read of a whole number of frames moves on by as many. -/
theorem Tracks.advanceBy {r : DynamicResampler α} {lo count R n pos balance : Int}
    {x : Int → Int → α} (h : r.Tracks lo count x R) (hn0 : 0 ≤ n) (hn : n ≤ count - R)
    (hpos : pos = (R + n) % r.size) (hbalance : balance = count - R - n) :
    Tracks { r with rdpos := pos, balance := balance } lo count x ((R + n : Int) : ℚ) := by
  have hsize := h.size_pos
  have hroom : count - R ≤ r.size - 1 := by exact_mod_cast h.room
  have h0 := Int.emod_nonneg R (by omega : r.size ≠ 0)
  have hlt := Int.emod_lt_of_pos R hsize
  have hmoved : (pos : ℚ) = if r.rdpos + n ≥ r.size then r.rdpos + n - r.size
      else r.rdpos + n := by
    rw [hpos, ring_position hsize hn0 (by omega), h.rdpos_eq]
    by_cases hwrap : R % r.size + n ≥ r.size
    · have hq : (((R % r.size : Int) : ℚ) + n ≥ r.size) := by exact_mod_cast hwrap
      rw [if_pos hq]
      split
      next => push_cast; ring
      next =>
        rw [if_pos (by omega), ← Int.cast_add, ← Int.cast_sub]
        congr 1
        omega
    · have hq : ¬ (((R % r.size : Int) : ℚ) + n ≥ r.size) := by exact_mod_cast hwrap
      rw [if_neg hq, if_neg (by omega), if_neg (by omega)]
      push_cast
      rfl
  have hcast : ((R + n : Int) : ℚ) = R + n := by push_cast; rfl
  rw [hcast]
  refine h.advanceTo (by exact_mod_cast hn0) (by exact_mod_cast hn) hmoved ?_
  rw [hbalance, h.balance]
  push_cast
  rfl

/-- What a read of `n` frames in steps of `k` returns and leaves behind. -/
structure NextFrames (ch : Nat) (count R k : Int) (x : Int → Int → α) (n : Nat)
    (r r' : DynamicResampler α) (data : List α) : Prop where
  frames : Frames ch data n fun i j => x (R + i * k) j
  available : R + n * k ≤ count
  tracks : r'.Tracks 0 count x ((R + n * k : Int) : ℚ)
  position : ∃ pos balance, r' = { r with rdpos := pos, balance := balance }

/-- **Reblocking**: the next `n` frames of the stream. -/
theorem Tracks.readReblock {r : DynamicResampler α} {ch : Nat} {count R : Int}
    {x : Int → Int → α} (h : r.Tracks 0 count x R) (hch : r.nchannels = ch) (hR : 0 ≤ R)
    {n : Nat} {data : List α} (hok : (r.readReblock r.sample n).1 = some data) :
    NextFrames ch count R 1 x n r (r.readReblock r.sample n).2 data := by
  have hsize := h.size_pos
  have hpos0 := Int.emod_nonneg R (by omega : r.size ≠ 0)
  have hposlt := Int.emod_lt_of_pos R hsize
  have hlt := h.size_lt
  have hroom : count - R ≤ r.size - 1 := by exact_mod_cast h.room
  dsimp only [DynamicResampler.readReblock] at hok ⊢
  rw [h.toInt32_balance, h.toInt32_rdpos] at hok ⊢
  split at hok
  next => cases hok
  next hlow =>
    rw [if_neg hlow]
    have hnext : (R + n) % r.size = if r.size < R % r.size + n then R % r.size + n - r.size
        else if R % r.size + n = r.size then 0 else R % r.size + n :=
      ring_position hsize (Int.natCast_nonneg n) (by omega)
    have hframe : ∀ i : Int, 0 ≤ i → i < n → ∀ j : Nat, j < ch →
        r.sample ((R + i) % r.size * r.nchannels + j) = x (R + i) j := by
      intro i hi0 hi j hj
      exact h.sample_eq (by omega) (by exact_mod_cast (by omega : R ≤ R + i)) (by omega) (by omega)
        (by omega)
    -- a frame before the end of the ring is in a later slot, one behind it at the front
    have hslot : ∀ i : Int, 0 ≤ i → R % r.size + i < r.size →
        (R + i) % r.size = R % r.size + i := by
      intro i hi0 hi
      rw [← Int.emod_add_emod]
      exact Int.emod_eq_of_lt (by omega) hi
    have hfront : ∀ i : Int, 0 ≤ i → i < r.size → (R + (r.size - R % r.size + i)) % r.size = i := by
      intro i hi0 hi
      have heq : R % r.size + (r.size - R % r.size + i) = i + r.size := by omega
      rw [← Int.emod_add_emod, heq, Int.add_emod_right]
      exact Int.emod_eq_of_lt hi0 hi
    have hmove : (R : Int) + n * 1 = R + n := by rw [Int.mul_one]
    by_cases hwrap : R % r.size + n > r.size
    · rw [if_pos hwrap] at hok ⊢
      rw [if_pos (by omega)] at hnext
      obtain ⟨n1, hn1⟩ := Int.eq_ofNat_of_zero_le (by omega : 0 ≤ r.size - R % r.size)
      obtain ⟨n2, hn2⟩ := Int.eq_ofNat_of_zero_le (by omega : 0 ≤ R % r.size + n - r.size)
      have hn : n = n1 + n2 := by omega
      refine ⟨?_, by omega, ?_, _, _, rfl⟩
      · rw [← Option.some.inj hok, hn1, hn2, hn]
        have hzero : (0 : Int) = 0 * r.nchannels := by rw [Int.zero_mul]
        rw [hzero]
        refine (frames_samples hch _ _ n1).append (frames_samples hch _ 0 n2)
          (fun i hi j hj => ?_) (fun i hi j hj => ?_)
        · rw [Int.mul_one, ← hframe i (by omega) (by omega) j hj, hslot i (by omega) (by omega)]
        · have hback : ((n1 + i : Nat) : Int) * 1 = r.size - R % r.size + i := by
            push_cast
            omega
          rw [hback, ← hframe _ (by omega) (by omega) j hj, hfront i (by omega) (by omega),
            Int.zero_add]
      · rw [hmove]
        exact h.advanceBy (by omega) (by omega) hnext.symm (wrap32_of_lt (by omega) (by omega))
    · rw [if_neg hwrap] at hok ⊢
      rw [if_neg (by omega)] at hnext
      refine ⟨?_, by omega, ?_, _, _, rfl⟩
      · rw [← Option.some.inj hok]
        refine (frames_samples hch _ _ n).congr fun i hi j hj => ?_
        rw [Int.mul_one, ← hframe i (by omega) (by omega) j hj, hslot i (by omega) (by omega)]
      · rw [hmove]
        exact h.advanceBy (by omega) (by omega) hnext.symm (wrap32_of_lt (by omega) (by omega))

theorem loopFrames_eq {n ch : Nat} (hch : 0 < ch) (h : (n : Int) * ch < 2147483648) :
    loopFrames n ch = n := by
  have h0 : (0 : Int) ≤ n * ch := Int.mul_nonneg (by omega) (by omega)
  have hround : ((n : Int) * ch + ch - 1) / ch = n := by
    have hadd : (n : Int) * ch + ch - 1 = (ch - 1) + n * ch := by omega
    rw [hadd, Int.add_mul_ediv_right _ _ (by omega), Int.ediv_eq_zero_of_lt (by omega) (by omega),
      Int.zero_add]
  simp only [loopFrames]
  rw [wrap32_of_lt h0 h, if_pos (by omega), hround, Int.toNat_natCast]

/-- **Skipping**: every k-th frame of the stream. -/
theorem Tracks.readSkip {r : DynamicResampler α} {ch : Nat} {count R k : Int}
    {x : Int → Int → α} (h : r.Tracks 0 count x R) (hch : r.nchannels = ch) (hch0 : 0 < ch)
    (hR : 0 ≤ R) (hk0 : 0 < k) (hk : toInt32 r.advance = k) {n : Nat} {data : List α}
    (hprod : n * k < 2147483648) (hsamples : n * k ≤ count - R → (n : Int) * ch < 2147483648)
    (hok : (r.readSkip r.sample n).1 = some data) :
    NextFrames ch count R k x n r (r.readSkip r.sample n).2 data := by
  have hsize := h.size_pos
  have hlt := h.size_lt
  have hroom : count - R ≤ r.size - 1 := by exact_mod_cast h.room
  have hprod0 : 0 ≤ n * k := Int.mul_nonneg (by omega) (by omega)
  dsimp only [DynamicResampler.readSkip] at hok ⊢
  rw [h.toInt32_balance, h.toInt32_rdpos, hk, wrap32_of_lt hprod0 hprod] at hok ⊢
  split at hok
  next => cases hok
  next hlow =>
    have hle : n * k ≤ count - R := by omega
    have hcount : loopFrames n r.nchannels = n := by
      rw [hch]
      exact loopFrames_eq hch0 (hsamples hle)
    rw [hcount] at hok ⊢
    rw [if_neg hlow]
    have hloop : Frames ch (r.skipFrames r.sample k n (R % r.size)).1 n
          (fun i j => r.sample ((R + i * k) % r.size * r.nchannels + j)) ∧
        (r.skipFrames r.sample k n (R % r.size)).2 = (R + n * k) % r.size := by
      rcases Nat.eq_zero_or_pos n with h0 | hpos
      · rw [h0]
        refine ⟨frames_nil ch _, ?_⟩
        rw [Int.natCast_zero, Int.zero_mul, Int.add_zero]
        rfl
      · -- a single step does not go further than the whole read
        have hstep : 1 * k ≤ n * k := Int.mul_le_mul_of_nonneg_right (by omega) (by omega)
        exact frames_skipFrames hch hsize _ (by omega) (by omega) n R
    obtain ⟨hdata, hpos⟩ := hloop
    refine ⟨?_, by omega, ?_, _, _, rfl⟩
    · rw [← Option.some.inj hok]
      refine hdata.congr fun i hi j hj => ?_
      have hlast : (i + 1) * k ≤ n * k := Int.mul_le_mul_of_nonneg_right (by omega) (by omega)
      have hi0 : 0 ≤ (i : Int) * k := Int.mul_nonneg (by omega) (by omega)
      rw [Int.add_mul, Int.one_mul] at hlast
      exact (h.sample_eq (by omega) (by exact_mod_cast (by omega : R ≤ R + i * k)) (by omega)
        (by omega) (by omega)).symm
    · exact h.advanceBy hprod0 hle hpos (wrap32_of_lt (by omega) (by omega))

/-! ## Runs -/

/-- A call of the writer or of the reader. -/
inductive Call (α : Type)
  | write (data : Int → α) (nframes : Nat)
  | read (nframes : Nat)

/-- A resampler with all that has been written into it and read from it. -/
structure Session (α : Type) where
  resampler : DynamicResampler α
  written : List α := []
  received : List α := []

/-- The `nframes * nchannels_` samples that `write` is given. -/
def blockSamples (r : DynamicResampler α) (data : Int → α) (nframes : Nat) : List α :=
  (List.range (nframes * r.nchannels.toNat)).map fun i : Nat => data i

def Session.step (mix : Mix α) (s : Session α) : Call α → Session α
  | .write data nframes =>
    let result := s.resampler.write data nframes
    { s with
      resampler := result.2
      written := if result.1 then s.written ++ s.resampler.blockSamples data nframes
        else s.written }
  | .read nframes =>
    let result := s.resampler.read mix nframes
    { s with resampler := result.2, received := s.received ++ result.1.getD [] }

/-- The products of a skipping read are `int32_t` values: the frames it takes, and, if
they are there, the samples it returns. -/
def NoOverflow (s : Session α) : Call α → Prop
  | .write _ _ => True
  | .read nframes => s.resampler.method = .skip →
      (nframes : ℚ) * s.resampler.advance < 2147483648 ∧
        ((nframes : ℚ) * s.resampler.advance ≤ s.resampler.balance →
          nframes * s.resampler.nchannels < 2147483648)

/-- The frames received are the frames `0, k, 2k, …` of those written, the balance stays
below the capacity, and a call that is refused changes nothing. The memory that all this
is about is there. -/
structure Lossless (mix : Mix α) (k : Nat) (s : Session α) : Prop where
  frames : ∃ R : Nat, s.received.length = R * s.resampler.nchannels.toNat ∧
    ∀ f < R, ∀ j < s.resampler.nchannels.toNat, ∃ x,
      s.received[f * s.resampler.nchannels.toNat + j]? = some x ∧
        s.written[f * k * s.resampler.nchannels.toNat + j]? = some x
  balance : 0 ≤ s.resampler.balance ∧ s.resampler.balance < s.resampler.size
  writeRefused : ∀ data n, (s.resampler.write data n).1 = false →
    (s.resampler.write data n).2 = s.resampler
  readRefused : ∀ n, (s.resampler.read mix n).1 = none →
    (s.resampler.read mix n).2 = s.resampler
  memory : ∀ p j, -1 ≤ p → p < s.resampler.size + 2 → 0 ≤ j → j < s.resampler.nchannels →
    s.resampler.Inside (p * s.resampler.nchannels + j)

/-- The stream behind a session: its frames are those written, and the ones received
are every k-th of them. -/
structure Session.Inv (k ch : Nat) (s : Session α) (count R : Nat) (x : Int → Int → α) :
    Prop where
  nchannels : s.resampler.nchannels = ch
  method : (s.resampler.method = .none ∧ k = 1) ∨
    (s.resampler.method = .skip ∧ s.resampler.advance = k)
  tracks : s.resampler.Tracks 0 count x ((R * k : Nat) : Int)
  placed : s.resampler.Placed
  written : Frames ch s.written count x
  received : Frames ch s.received R fun f j => x (f * k) j

theorem Session.Inv.write {k ch count R : Nat} {s : Session α} {x : Int → Int → α}
    (h : s.Inv k ch count R x) (mix : Mix α) (hk : 0 < k) (data : Int → α) (n : Nat) :
    ∃ count y, (s.step mix (.write data n)).Inv k ch count R y := by
  cases hok : (s.resampler.write data n).1 with
  | false =>
    refine ⟨count, x, ?_⟩
    have hsame : s.step mix (.write data n) = s := by
      simp only [Session.step, hok, write_rejected hok, Bool.false_eq_true, if_false]
    rw [hsame]
    exact h
  | true =>
    obtain ⟨-, -, hframe, -⟩ := write_accepted h.tracks.buffer hok
    let y : Int → Int → α := fun i j =>
      if i < count then x i j else data ((i - count) * s.resampler.nchannels + j)
    have hold : ∀ i j : Int, i < count → y i j = x i j := fun i j hi => if_pos hi
    have hnew : ∀ i j : Int, (count : Int) ≤ i → i < count + n →
        y i j = data ((i - count) * s.resampler.nchannels + j) :=
      fun i j hi _ => if_neg (by omega)
    have htracks := h.tracks.write (Int.natCast_nonneg n) hok hold hnew
    have hblock : Frames ch (s.resampler.blockSamples data n) n
        fun i j => data ((0 + i) * ch + j) := by
      have hmap := frames_map_range ch n 0 data
      simp only [Int.zero_mul, Int.zero_add] at hmap
      simp only [blockSamples, h.nchannels, Int.toNat_natCast, Int.zero_add]
      exact hmap
    refine ⟨count + n, y, ?_, ?_, ?_, ?_, ?_, ?_⟩
    · show (s.resampler.write data n).2.nchannels = ch
      rw [hframe]
      exact h.nchannels
    · show ((s.resampler.write data n).2.method = .none ∧ k = 1) ∨
        ((s.resampler.write data n).2.method = .skip ∧ (s.resampler.write data n).2.advance = k)
      rw [hframe]
      exact h.method
    · exact_mod_cast htracks
    · refine h.placed.congr (write_allocation _ data n) ?_ ?_
      · show (s.resampler.write data n).2.size = _
        rw [hframe]
      · show (s.resampler.write data n).2.nchannels = _
        rw [hframe]
    · simp only [Session.step, hok, if_true]
      refine h.written.append hblock (fun i hi j _ => if_pos (by omega)) (fun i hi j _ => ?_)
      have hindex : ((count + i : Nat) : Int) - count = 0 + i := by omega
      rw [hnew _ _ (by omega) (by omega), h.nchannels, hindex]
    · -- what has been received was written before
      have hunread : R * k ≤ count := by exact_mod_cast h.tracks.unread
      refine h.received.congr fun f hf j _ => hold _ _ ?_
      have hmul : (f + 1) * k ≤ R * k := Nat.mul_le_mul_right k hf
      rw [Nat.add_mul, Nat.one_mul] at hmul
      have hlt : f * k < count := by omega
      exact_mod_cast hlt

theorem Session.Inv.read {k ch count R : Nat} {s : Session α} {x : Int → Int → α}
    (h : s.Inv k ch count R x) (mix : Mix α) (hk : 0 < k) (hk32 : k < 2147483648)
    (hch : 0 < ch) {n : Nat} (hsafe : NoOverflow s (.read n)) :
    ∃ R, (s.step mix (.read n)).Inv k ch count R x := by
  cases hok : (s.resampler.read mix n).1 with
  | none =>
    refine ⟨R, ?_⟩
    have hsame : s.step mix (.read n) = s := by
      simp only [Session.step, hok, read_rejected hok, Option.getD_none, List.append_nil]
    rw [hsame]
    exact h
  | some data =>
    have hnext : NextFrames ch count (R * k : Nat) k x n s.resampler (s.resampler.read mix n).2
        data := by
      rcases h.method with ⟨hm, hk1⟩ | ⟨hm, hadv⟩
      · simp only [DynamicResampler.read, readFrom, hm] at hok ⊢
        have hreblock := h.tracks.readReblock h.nchannels (Int.natCast_nonneg _) hok
        rw [hk1] at hreblock ⊢
        exact hreblock
      · obtain ⟨hprod, hsamples⟩ := hsafe hm
        simp only [DynamicResampler.read, readFrom, hm] at hok ⊢
        rw [hadv] at hprod hsamples
        rw [h.nchannels, h.tracks.balance] at hsamples
        have hint : toInt32 s.resampler.advance = k := by
          have hcast : s.resampler.advance = ((k : Int) : ℚ) := by
            rw [hadv]
            push_cast
            rfl
          rw [hcast]
          exact toInt32_intCast (by omega) (by omega)
        refine h.tracks.readSkip h.nchannels hch (Int.natCast_nonneg _) (by omega) hint
          (by exact_mod_cast hprod) (fun hle => ?_) hok
        exact hsamples (by exact_mod_cast hle)
    obtain ⟨pos, balance, hframe⟩ := hnext.position
    have hsum : ((R * k : Nat) : Int) + n * k = (((R + n) * k : Nat) : Int) := by
      push_cast
      ring
    refine ⟨R + n, ?_, ?_, ?_, ?_, h.written, ?_⟩
    · show (s.resampler.read mix n).2.nchannels = ch
      rw [hframe]
      exact h.nchannels
    · show ((s.resampler.read mix n).2.method = .none ∧ k = 1) ∨
        ((s.resampler.read mix n).2.method = .skip ∧ (s.resampler.read mix n).2.advance = k)
      rw [hframe]
      exact h.method
    · rw [← hsum]
      exact hnext.tracks
    · refine h.placed.congr ?_ ?_ ?_
      · show (s.resampler.read mix n).2.allocation = _
        rw [hframe]
        rfl
      · show (s.resampler.read mix n).2.size = _
        rw [hframe]
      · show (s.resampler.read mix n).2.nchannels = _
        rw [hframe]
    · simp only [Session.step, hok, Option.getD_some]
      refine h.received.append hnext.frames (fun i _ j _ => rfl) (fun i _ j _ => ?_)
      congr 1
      push_cast
      ring

theorem Session.Inv.lossless {mix : Mix α} {k ch count R : Nat} {s : Session α}
    {x : Int → Int → α} (h : s.Inv k ch count R x) (hk : 0 < k) : Lossless mix k s := by
  have hunread : R * k ≤ count := by exact_mod_cast h.tracks.unread
  have hch : s.resampler.nchannels.toNat = ch := by rw [h.nchannels, Int.toNat_natCast]
  have hle := h.tracks.unread
  have hroom := h.tracks.room
  refine ⟨⟨R, ?_, fun f hf j hj => ?_⟩, ?_, fun _ _ => write_rejected, fun _ => read_rejected,
    fun p j hp0 hp hj0 hj => h.placed.inside h.tracks.buffer hp0 hp hj0 hj⟩
  · rw [hch]
    exact h.received.length
  · have hmul : (f + 1) * k ≤ R * k := Nat.mul_le_mul_right k hf
    rw [Nat.add_mul, Nat.one_mul] at hmul
    rw [hch] at hj ⊢
    refine ⟨_, h.received.get f hf j hj, ?_⟩
    exact_mod_cast h.written.get (f * k) (by omega) j hj
  · rw [h.tracks.balance]
    exact ⟨by linarith, by linarith⟩

/-- The methods that only hand frames on, and how many frames they take for one. -/
def SetupArgs.HandsOn (a : SetupArgs) (k : Nat) : Prop :=
  (a.method.1 = .none ∧ k = 1) ∨ (a.method.1 = .skip ∧ (k : Int) = a.srfrom / a.srto)

theorem SetupArgs.method_skip {a : SetupArgs} (h : a.method.1 = .skip) :
    a.srto < a.srfrom ∧ a.srfrom % a.srto = 0 := by
  unfold SetupArgs.method at h
  split at h
  next => cases h
  next =>
    split at h
    next hskip =>
      rw [Bool.and_eq_true, Bool.and_eq_true, decide_eq_true_eq, beq_iff_eq] at hskip
      exact ⟨hskip.1.2, hskip.2⟩
    next =>
      split at h
      next => cases h
      next =>
        split at h
        next => cases h
        next =>
          split at h
          next => cases h
          next => cases h

theorem SetupArgs.HandsOn.pos {a : SetupArgs} {k : Nat} (h : a.HandsOn k) :
    0 < k ∧ k < 2147483648 := by
  have hto := a.srto_pos
  have hfrom := a.srfrom_pos
  rcases h with ⟨-, rfl⟩ | ⟨hm, hk⟩
  · exact ⟨by omega, by omega⟩
  · obtain ⟨hlt, hmod⟩ := SetupArgs.method_skip hm
    have hpos : 0 < a.srfrom / a.srto :=
      Int.ediv_pos_of_pos_of_dvd hfrom.1 (by omega) (Int.dvd_of_emod_eq_zero hmod)
    have hle : a.srfrom / a.srto ≤ a.srfrom := Int.ediv_le_self _ (by omega)
    exact ⟨by omega, by omega⟩

/-- The ratio of an integer downsampling. -/
theorem SetupArgs.ratio_eq {a : SetupArgs} {k : Nat} (hm : a.method.1 = .skip)
    (hk : (k : Int) = a.srfrom / a.srto) : (a.srfrom : ℚ) / a.srto = k := by
  have hto := a.srto_pos.1
  have hexact : a.srfrom = k * a.srto := by
    rw [hk]
    exact (Int.ediv_mul_cancel (Int.dvd_of_emod_eq_zero (SetupArgs.method_skip hm).2)).symm
  have hne : (a.srto : ℚ) ≠ 0 := by
    have : (0 : ℚ) < a.srto := by exact_mod_cast hto
    exact this.ne'
  rw [div_eq_iff hne, hexact]
  push_cast
  rfl

omit [Zero α] in
/-- A call that keeps the match and provides a buffer. -/
theorem Keeps.fits {r : DynamicResampler α} {a : SetupArgs} (h : r.Keeps a)
    (hb : a.bypass = false) : a.nchannels ≤ 32767 ∧ a.CapacityFits := by
  rcases h with hbypass | ⟨hch, hcap, -⟩
  · rw [hb] at hbypass
    cases hbypass
  · exact ⟨hch, hcap⟩

theorem start_inv {r : DynamicResampler α} {a : SetupArgs} {k : Nat} (hk : a.HandsOn k)
    (hb : a.bypass = false) (hs : r.Sound) (hr : r.BufferMatches) (hkeeps : r.Keeps a) :
    Session.Inv k a.nchannels.toNat { resampler := r.setup a } 0 0 fun _ _ => (0 : α) := by
  obtain ⟨hch, hcap⟩ := hkeeps.fits hb
  obtain ⟨hsize0, hsize⟩ := hcap.size_range
  obtain ⟨hch0, hch32⟩ := a.nchannels_pos
  obtain ⟨hwrpos, hrdpos, hbalance⟩ := setup_start r a
  have hinitial : initialFrames a.method.1 = 0 := by
    rcases hk with ⟨hm, -⟩ | ⟨hm, -⟩ <;> rw [hm] <;> rfl
  have hsz := setup_size (r := r) hb
  rw [hinitial] at hwrpos hbalance
  refine ⟨?_, ?_, ?_, hkeeps.placed hs hr, frames_nil _ _, frames_nil _ _⟩
  · show (r.setup a).nchannels = _
    rw [setup_nchannels, (wrap16_eq_iff hch0 hch32).mpr hch]
    omega
  · show ((r.setup a).method = .none ∧ k = 1) ∨ ((r.setup a).method = .skip ∧
      (r.setup a).advance = k)
    rw [setup_method]
    rcases hk with ⟨hm, hk1⟩ | ⟨hm, hkr⟩
    · exact Or.inl ⟨hm, hk1⟩
    · refine Or.inr ⟨hm, ?_⟩
      rw [setup_advance r (by rw [hm]; exact ResampleMethod.noConfusion), SetupArgs.ratio_eq hm hkr]
  · rw [Nat.zero_mul]
    have hsizeq : (0 : ℚ) < a.size := by exact_mod_cast hsize0
    have hlow : (1 : ℚ) ≤ a.size := by exact_mod_cast hsize0
    refine ⟨setup_isSome r hb, by rw [hsz]; exact hsize0, by rw [hsz]; exact hsize, ?_, ?_, ?_, ?_,
      ?_, ?_, ⟨0, ?_⟩, fun i j hlo _ hi => ?_⟩
    · rw [hwrpos]
      exact (Int.zero_emod _).symm
    · rw [hbalance]
      push_cast
      ring
    · push_cast
      exact le_refl _
    · rw [hsz]
      push_cast
      linarith
    · rw [hrdpos]
    · rw [hrdpos, hsz]
      exact hsizeq
    · rw [hrdpos]
      push_cast
      ring
    · omega

theorem halfRate_srfrom : 0 < (48000 : Int) ∧ (48000 : Int) < 2147483648 := by decide

theorem halfRate_nchannels : 0 < (1 : Int) ∧ (1 : Int) < 2147483648 := by decide

/-- From 48 to 24 kHz in blocks of 64 frames, mono. -/
def halfRate : SetupArgs :=
  { nfrom := 64, nto := 64, fixed_n := true, srfrom := 48000, srto := 24000, fixed_sr := true
    nchannels := 1, mode := kAooResampleLinear
    nfrom_pos := by decide, nto_pos := by decide, srfrom_pos := halfRate_srfrom
    srto_pos := by decide, nchannels_pos := halfRate_nchannels }

/-- A block of 64 frames and two reads, of which the second one is refused. -/
def halfRateCalls : List (Call ℚ) := [.write (fun i => i) 64, .read 20, .read 20]

end Aoo.Resampler.DynamicResampler
