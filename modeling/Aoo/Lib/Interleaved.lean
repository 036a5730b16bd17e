import Mathlib.Tactic.Linarith
import Mathlib.Tactic.Ring
import Mathlib.Algebra.Order.Ring.Int

/-!
# Rings of interleaved frames

Audio is kept as frames of `ch` samples, one behind the other: channel `j` of the
frame `p` is the sample `p * ch + j`. Memory is a function on the integers, since
buffers may have frames in front of their start.

A ring of `size` frames keeps the last frames of a stream: frame `i` of the stream
is in slot `i % size`. `ringWrite` puts a block behind what is there, in two pieces
if it reaches the end of the ring, and `RingHolds.write` says that the ring then
holds the longer stream.
-/

namespace Aoo.Lib

variable {α : Type}

/-- `std::copy(src, src + n, mem + dst)` -/
def copySamples (mem : Int → α) (dst n : Int) (src : Int → α) : Int → α :=
  fun i => if dst ≤ i ∧ i < dst + n then src (i - dst) else mem i

/-- A sample of the frame `p` lies before frame `q` exactly if `p` does. -/
theorem sample_lt_iff {ch p q j : Int} (hj0 : 0 ≤ j) (hj : j < ch) :
    p * ch + j < q * ch ↔ p < q := by
  refine ⟨fun h => ?_, fun h => ?_⟩
  · by_contra hle
    have hmul : q * ch ≤ p * ch := Int.mul_le_mul_of_nonneg_right (by omega) (by omega)
    omega
  · have hmul : (p + 1) * ch ≤ q * ch := Int.mul_le_mul_of_nonneg_right (by omega) (by omega)
    rw [Int.add_mul] at hmul
    omega

/-- Copying whole frames copies frames. -/
theorem copySamples_frame {mem src : Int → α} {dst n p ch j : Int} (hj0 : 0 ≤ j) (hj : j < ch) :
    copySamples mem (dst * ch) (n * ch) src (p * ch + j) =
      if dst ≤ p ∧ p < dst + n then src ((p - dst) * ch + j) else mem (p * ch + j) := by
  have hlow : dst * ch ≤ p * ch + j ↔ dst ≤ p := by
    rw [← Int.not_lt, sample_lt_iff hj0 hj, Int.not_lt]
  have hhigh : p * ch + j < dst * ch + n * ch ↔ p < dst + n := by
    rw [← Int.add_mul, sample_lt_iff hj0 hj]
  have hindex : p * ch + j - dst * ch = (p - dst) * ch + j := by
    rw [Int.sub_mul]
    omega
  rw [copySamples, hindex]
  simp only [hlow, hhigh]

/-- A block of `n` frames, written at frame `pos` of a ring of `size` frames. -/
def ringWrite (size ch : Int) (mem : Int → α) (pos n : Int) (data : Int → α) : Int → α :=
  if size < pos + n then
    let split := size - pos
    copySamples (copySamples mem (pos * ch) (split * ch) data) 0 ((n - split) * ch)
      (fun i => data (split * ch + i))
  else copySamples mem (pos * ch) (n * ch) data

/-- Frames outside the ring stay as they are. -/
theorem ringWrite_outside {size ch : Int} {mem data : Int → α} {pos n p j : Int}
    (hpos0 : 0 ≤ pos) (hpos : pos ≤ size) (hn : n ≤ size) (hp : p < 0 ∨ size ≤ p) (hj0 : 0 ≤ j)
    (hj : j < ch) : ringWrite size ch mem pos n data (p * ch + j) = mem (p * ch + j) := by
  unfold ringWrite
  split
  next hwrap =>
    have h0 : (0 : Int) = 0 * ch := by rw [Int.zero_mul]
    rw [h0, copySamples_frame hj0 hj, if_neg (by omega), copySamples_frame hj0 hj,
      if_neg (by omega)]
  next hwrap => rw [copySamples_frame hj0 hj, if_neg (by omega)]

/-- The frame in slot `p` afterwards: the one of the block that falls there, if any. -/
theorem ringWrite_frame {size ch : Int} {mem data : Int → α} {pos n p j : Int} (hpos0 : 0 ≤ pos)
    (hpos : pos < size) (hn : n ≤ size) (hp0 : 0 ≤ p) (hp : p < size) (hj0 : 0 ≤ j)
    (hj : j < ch) :
    ringWrite size ch mem pos n data (p * ch + j) =
      if (p - pos) % size < n then data (((p - pos) % size) * ch + j) else mem (p * ch + j) := by
  -- a slot behind `pos` is met in this lap, one before it in the next
  have hmod : (p - pos) % size = if pos ≤ p then p - pos else p - pos + size := by
    split
    next hle => exact Int.emod_eq_of_lt (by omega) (by omega)
    next hgt =>
      rw [← Int.add_emod_right]
      exact Int.emod_eq_of_lt (by omega) (by omega)
  rw [hmod]
  unfold ringWrite
  split
  next hwrap =>
    have h0 : (0 : Int) = 0 * ch := by rw [Int.zero_mul]
    rw [h0, copySamples_frame hj0 hj, copySamples_frame hj0 hj]
    by_cases hle : pos ≤ p
    · rw [if_neg (by omega), if_pos hle, if_pos (by omega), if_pos (by omega)]
    · rw [if_neg hle]
      by_cases hlt : p - pos + size < n
      · have hindex : (size - pos) * ch + ((p - 0) * ch + j) = (p - pos + size) * ch + j := by
          linarith
        rw [if_pos (by omega), if_pos hlt, hindex]
      · rw [if_neg (by omega), if_neg (by omega), if_neg hlt]
  next hwrap =>
    rw [copySamples_frame hj0 hj]
    by_cases hle : pos ≤ p
    · rw [if_pos hle]
      by_cases hlt : p - pos < n
      · rw [if_pos (by omega), if_pos hlt]
      · rw [if_neg (by omega), if_neg hlt]
    · rw [if_neg (by omega), if_neg hle, if_neg (by omega)]

/-! ## What the ring holds of a stream -/

/-- The ring holds the frames `lo ≤ i < count` of the stream `x`, as far back as
`size` frames reach. -/
def RingHolds (size ch : Int) (mem : Int → α) (lo count : Int) (x : Int → Int → α) : Prop :=
  ∀ i j, lo ≤ i → count - size ≤ i → i < count → 0 ≤ j → j < ch →
    mem (i % size * ch + j) = x i j

/-- **Writing behind the stream**: a block written where the next frame belongs
extends the stream. -/
theorem RingHolds.write {size ch lo count n : Int} {mem data : Int → α} {x y : Int → Int → α}
    (h : RingHolds size ch mem lo count x) (hsize : 0 < size) (hn0 : 0 ≤ n) (hn : n ≤ size)
    (hold : ∀ i j, i < count → y i j = x i j)
    (hnew : ∀ i j, count ≤ i → i < count + n → y i j = data ((i - count) * ch + j)) :
    RingHolds size ch (ringWrite size ch mem (count % size) n data) lo (count + n) y := by
  intro i j hlo hback hi hj0 hj
  have hne : size ≠ 0 := by omega
  rw [ringWrite_frame (Int.emod_nonneg _ hne) (Int.emod_lt_of_pos _ hsize) hn
    (Int.emod_nonneg _ hne) (Int.emod_lt_of_pos _ hsize) hj0 hj]
  have hmod : (i % size - count % size) % size = (i - count) % size :=
    (Int.sub_emod i count size).symm
  rw [hmod]
  by_cases hc : count ≤ i
  · have hsmall : (i - count) % size = i - count := Int.emod_eq_of_lt (by omega) (by omega)
    rw [hsmall, if_pos (by omega), hnew i j hc hi]
  · have hlap : (i - count) % size = i - count + size := by
      rw [← Int.add_emod_right]
      exact Int.emod_eq_of_lt (by omega) (by omega)
    rw [hlap, if_neg (by omega), hold i j (by omega)]
    exact h i j hlo (by omega) (by omega) hj0 hj

/-- The slot behind the block. -/
theorem ring_position {size count n : Int} (hsize : 0 < size) (hn0 : 0 ≤ n) (hn : n ≤ size) :
    (count + n) % size =
      if size < count % size + n then count % size + n - size
      else if count % size + n = size then 0 else count % size + n := by
  have h0 := Int.emod_nonneg count (by omega : size ≠ 0)
  have h1 := Int.emod_lt_of_pos count hsize
  rw [← Int.emod_add_emod]
  split
  next hwrap =>
    rw [← Int.sub_emod_right]
    exact Int.emod_eq_of_lt (by omega) (by omega)
  next hwrap =>
    split
    next heq => rw [heq, Int.emod_self]
    next hne => exact Int.emod_eq_of_lt (by omega) (by omega)

/-! ## Lists of interleaved frames -/

/-- The samples are `n` frames of `ch` samples, frame `i` being `x i`. -/
structure Frames (ch : Nat) (data : List α) (n : Nat) (x : Int → Int → α) : Prop where
  length : data.length = n * ch
  get : ∀ i < n, ∀ j < ch, data[i * ch + j]? = some (x i j)

theorem frames_nil (ch : Nat) (x : Int → Int → α) : Frames ch [] 0 x :=
  ⟨by rw [List.length_nil, Nat.zero_mul], fun i hi => absurd hi (Nat.not_lt_zero i)⟩

/-- Frames behind frames. -/
theorem Frames.append {ch n₁ n₂ : Nat} {d₁ d₂ : List α} {x₁ x₂ y : Int → Int → α}
    (h₁ : Frames ch d₁ n₁ x₁) (h₂ : Frames ch d₂ n₂ x₂)
    (hy₁ : ∀ i : Nat, i < n₁ → ∀ j : Nat, j < ch → y i j = x₁ i j)
    (hy₂ : ∀ i : Nat, i < n₂ → ∀ j : Nat, j < ch → y ↑(n₁ + i) j = x₂ i j) :
    Frames ch (d₁ ++ d₂) (n₁ + n₂) y := by
  refine ⟨by rw [List.length_append, h₁.length, h₂.length, Nat.add_mul], fun i hi j hj => ?_⟩
  by_cases hfirst : i < n₁
  · have hmul : (i + 1) * ch ≤ n₁ * ch := Nat.mul_le_mul_right ch hfirst
    rw [Nat.add_mul] at hmul
    rw [List.getElem?_append_left (by rw [h₁.length]; omega), h₁.get i hfirst j hj,
      hy₁ i hfirst j hj]
  · obtain ⟨m, rfl⟩ := Nat.exists_eq_add_of_le (Nat.le_of_not_lt hfirst)
    have hindex : (n₁ + m) * ch + j - n₁ * ch = m * ch + j := by
      rw [Nat.add_mul]
      omega
    have hle : n₁ * ch ≤ (n₁ + m) * ch + j := by
      rw [Nat.add_mul]
      omega
    rw [List.getElem?_append_right (by rw [h₁.length]; exact hle), h₁.length, hindex,
      h₂.get m (by omega) j hj, hy₂ m (by omega) j hj]

/-- The same frames, described by another function. -/
theorem Frames.congr {ch n : Nat} {data : List α} {x y : Int → Int → α} (h : Frames ch data n x)
    (hxy : ∀ i : Nat, i < n → ∀ j : Nat, j < ch → y i j = x i j) : Frames ch data n y :=
  ⟨h.length, fun i hi j hj => by rw [h.get i hi j hj, hxy i hi j hj]⟩

/-- The frames from `p` on, out of a memory. -/
theorem frames_map_range (ch n : Nat) (p : Int) (mem : Int → α) :
    Frames ch ((List.range (n * ch)).map fun i : Nat => mem (p * ch + i)) n
      fun i j => mem ((p + i) * ch + j) := by
  refine ⟨by rw [List.length_map, List.length_range], fun i hi j hj => ?_⟩
  have hmul : (i + 1) * ch ≤ n * ch := Nat.mul_le_mul_right ch hi
  rw [Nat.add_mul] at hmul
  rw [List.getElem?_map, List.getElem?_range (by omega), Option.map_some]
  congr 2
  push_cast
  ring

end Aoo.Lib
