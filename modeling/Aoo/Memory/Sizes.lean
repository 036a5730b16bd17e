import Aoo.Memory.Pool
import Mathlib.Tactic.Ring

/-!
# Bucket sizes and splitting

The bit operations in numbers: a request goes to a bucket whose blocks are large enough
(`sizeToIndex_spec`), and the rest of a large block can be cut into pieces that
fit their buckets exactly (`splitBlock_eq`).
-/

namespace Aoo

theorem bucketSizes_small {i : Nat} (h : i < 64) : bucketSizes i = (i + 1) * 64 :=
  if_neg (Nat.not_le_of_lt h)

/-- Sixteen large buckets between two powers of two. -/
theorem bucketSizes_large : ∀ k < 4, ∀ j < 16,
    bucketSizes (64 + 16 * k + j) = 2 ^ (12 + k) + (j + 1) * 2 ^ (8 + k) := by
  decide +kernel

theorem dvd_bucketSizes : ∀ i < bucketCount, 64 ∣ bucketSizes i := by
  decide +kernel

theorem bucketSizes_le : ∀ i < bucketCount, bucketSizes i ≤ 65536 := by
  decide +kernel

theorem bucketSizes_ge : ∀ i < bucketCount, 64 ≤ bucketSizes i := by
  decide +kernel

theorem bucketSizes_succ : ∀ i < bucketCount, bucketSizes i < bucketSizes (i + 1) := by
  decide +kernel

theorem bucketSizes_lt {i j : Nat} (hi : i < bucketCount) (hj : j < i) :
    bucketSizes j < bucketSizes i := by
  induction i with
  | zero => exact absurd hj (Nat.not_lt_zero j)
  | succ i ih =>
    have hsucc := bucketSizes_succ i (by omega)
    rcases Nat.lt_succ_iff_lt_or_eq.mp hj with hlt | rfl
    · exact Nat.lt_trans (ih (by omega) hlt) hsucc
    · exact hsucc

theorem lt_bucketSizes : ∀ i < bucketCount, i < bucketSizes i := by
  decide +kernel

theorem sizeToIndex_small {size : Nat} (h : size ≤ 4096) :
    sizeToIndex size = .ok ((size - 1) / 64) :=
  if_neg (Nat.not_lt_of_le h)

/-- A large size lies between the sizes of its bucket and of the one below. -/
theorem sizeToIndex_large {size : Nat} (hlow : smallAllocLimit < size) (hhigh : size < 65536) :
    ∃ i, sizeToIndex size = .ok i ∧ largeBucketOffset ≤ i ∧ i < bucketCount ∧
      bucketSizes (i - 1) ≤ size ∧ size < bucketSizes i := by
  have hlimit : smallAllocLimit = 4096 := rfl
  -- The power of two decides the sixteen buckets, the next four bits the bucket.
  obtain ⟨k, hk, hpow⟩ : ∃ k < 4, 2 ^ (12 + k) ≤ size ∧ size < 2 ^ (12 + k + 1) := by
    by_cases h1 : size < 8192
    · exact ⟨0, by omega, by omega, by omega⟩
    by_cases h2 : size < 16384
    · exact ⟨1, by omega, by omega, by omega⟩
    by_cases h3 : size < 32768
    · exact ⟨2, by omega, by omega, by omega⟩
    · exact ⟨3, by omega, by omega, by omega⟩
  have hlog : Nat.log2 size = 12 + k := (Nat.log2_eq_iff (by omega)).mpr hpow
  obtain ⟨w, hw⟩ : ∃ w, w = 2 ^ (8 + k) := ⟨_, rfl⟩
  have hpos : 0 < w := hw ▸ Nat.two_pow_pos _
  have h16 : 2 ^ (12 + k) = 16 * w := by
    rw [hw, show 12 + k = 4 + (8 + k) by omega, Nat.pow_add]
  have h32 : 2 ^ (12 + k + 1) = 32 * w := by
    rw [hw, show 12 + k + 1 = 5 + (8 + k) by omega, Nat.pow_add]
  rw [h16, h32] at hpow
  have hlower : 16 ≤ size / w := (Nat.le_div_iff_mul_le hpos).mpr hpow.1
  have hupper : size / w < 32 := (Nat.div_lt_iff_lt_mul hpos).mpr hpow.2
  obtain ⟨j, hj⟩ : ∃ j, size / w = 16 + j := ⟨size / w - 16, by omega⟩
  have hlt : j < 16 := by omega
  have hbits : (size >>> (12 + k - 4)) &&& 15 = j := by
    rw [show 15 = 2 ^ 4 - 1 from rfl, Nat.and_two_pow_sub_one_eq_mod, Nat.shiftRight_eq_div_pow,
      show 12 + k - 4 = 8 + k by omega, ← hw, hj]
    omega
  have hindex : sizeToIndex size = .ok (64 + 16 * k + j) := by
    unfold sizeToIndex
    rw [if_pos hlow, hlog]
    have hsum : (12 + k) * 2 ^ 4 + j + largeBucketOffset - smallAllocLimitBits * 16 =
        64 + 16 * k + j := by
      unfold largeBucketOffset smallAllocLimitBits
      omega
    simp only [hbits, Nat.shiftLeft_eq, hsum]
    rw [check, if_pos ⟨by omega, by omega⟩]
    rfl
  have hbelow : (16 + j) * w ≤ size := hj ▸ Nat.div_mul_le_self size w
  have habove : size < (16 + j) * w + w := hj ▸ Nat.lt_div_mul_add hpos
  refine ⟨64 + 16 * k + j, hindex, by unfold largeBucketOffset; omega,
    by unfold bucketCount; omega, ?_, ?_⟩
  · refine Nat.le_trans (Nat.le_of_eq ?_) hbelow
    -- The bucket below may belong to the lower power of two, or be the last small one.
    cases j with
    | succ j =>
      rw [show 64 + 16 * k + (j + 1) - 1 = 64 + 16 * k + j by omega,
        bucketSizes_large k hk j (by omega), h16, ← hw]
      ring
    | zero =>
      cases k with
      | zero => rw [hw]; rfl
      | succ k =>
        rw [show 64 + 16 * (k + 1) + 0 - 1 = 64 + 16 * k + 15 by omega,
          bucketSizes_large k (by omega) 15 (by omega), hw]
        ring
  · refine Nat.lt_of_lt_of_le habove (Nat.le_of_eq ?_)
    rw [bucketSizes_large k hk j hlt, h16, ← hw]
    ring

/-- Rounding up to a multiple of the alignment. -/
theorem roundUp_eq {size : Nat} (h : size ≤ 4096) :
    (size + blockAlignment - 1) &&& (2 ^ 64 - blockAlignment) = (size + 63) / 64 * 64 := by
  have hmask : 2 ^ 64 - blockAlignment = (2 ^ 58 - 1) <<< 6 := by decide
  have hlt : (size + 63) / 64 < 2 ^ 58 := by omega
  have hlow : ((size + 63) &&& ((2 ^ 58 - 1) <<< 6)) % 2 ^ 6 = 0 := by
    rw [Nat.and_mod_two_pow, Nat.shiftLeft_eq, Nat.mul_mod_left, Nat.and_zero]
  have hhigh : ((size + 63) &&& ((2 ^ 58 - 1) <<< 6)) >>> 6 = (size + 63) / 64 := by
    rw [Nat.shiftRight_and_distrib, Nat.shiftLeft_shiftRight, Nat.and_two_pow_sub_one_eq_mod,
      Nat.shiftRight_eq_div_pow]
    exact Nat.mod_eq_of_lt hlt
  rw [hmask, show size + blockAlignment - 1 = size + 63 from rfl]
  rw [Nat.shiftRight_eq_div_pow] at hhigh
  omega

/-- **A request goes to a bucket whose blocks are large enough**, and the size of
a new block is the one of the bucket. -/
theorem sizeToIndex_spec {size : Nat} (hpos : 0 < size) (h : size ≤ largeAllocLimit) :
    ∃ i, sizeToIndex size = .ok i ∧ i < bucketCount ∧ size ≤ bucketSizes i ∧
      getAllocSize size = .ok (bucketSizes i) := by
  have hlimit : smallAllocLimit = 4096 := rfl
  have hlarge : largeAllocLimit = 65535 := rfl
  by_cases hsize : smallAllocLimit < size
  · obtain ⟨i, hi, -, hcount, -, hlt⟩ := sizeToIndex_large hsize (by omega)
    refine ⟨i, hi, hcount, Nat.le_of_lt hlt, ?_⟩
    rw [getAllocSize, if_pos hsize, hi]
    rfl
  · have hbucket : bucketSizes ((size - 1) / 64) = ((size - 1) / 64 + 1) * 64 :=
      bucketSizes_small (by omega)
    refine ⟨(size - 1) / 64, sizeToIndex_small (by omega), by unfold bucketCount; omega, by omega, ?_⟩
    rw [getAllocSize, if_neg hsize, roundUp_eq (by omega), hbucket]
    have hround : (size + 63) / 64 * 64 = ((size - 1) / 64 + 1) * 64 := by omega
    rw [hround]
    rfl

/-! ## Splitting -/

/-- Blocks for the given buckets, one after the other. -/
def Pool.pushAll (c : PoolConfig) : Pool → Nat → List Nat → Pool
  | p, _, [] => p
  | p, ptr, i :: is => pushAll c (p.pushBlock c ptr i) (ptr + bucketSizes i) is

theorem splitLoop_eq (c : PoolConfig) (p : Pool) (ptr : Nat) {size : Nat} (hdvd : 64 ∣ size)
    (h : size < 65536) :
    ∃ is : List Nat, (∀ i ∈ is, i < bucketCount) ∧ (is.map bucketSizes).sum = size ∧
      p.splitLoop c ptr size = .ok (p.pushAll c ptr is) := by
  induction size using Nat.strong_induction_on generalizing p ptr with
  | _ size ih =>
    by_cases hzero : size = 0
    · refine ⟨[], fun _ h => absurd h List.not_mem_nil, hzero.symm, ?_⟩
      rw [Pool.splitLoop, if_pos hzero]
      rfl
    by_cases hsize : smallAllocLimit < size
    · obtain ⟨i, hi, hlarge, hcount, hle, -⟩ := sizeToIndex_large hsize h
      have hcount' : i - 1 < bucketCount := by omega
      have hpos := bucketSizes_pos (i - 1)
      -- One piece is cut off, and the rest is smaller.
      obtain ⟨is, his, hsum, heq⟩ := ih (size - bucketSizes (i - 1)) (by omega)
        (p.pushBlock c ptr (i - 1)) (ptr + bucketSizes (i - 1))
        (Nat.dvd_sub hdvd (dvd_bucketSizes _ hcount')) (by omega)
      refine ⟨(i - 1) :: is, ?_, ?_, ?_⟩
      · intro j hj
        rcases List.mem_cons.mp hj with rfl | hj
        · exact hcount'
        · exact his j hj
      · rw [List.map_cons, List.sum_cons, hsum]
        omega
      · rw [Pool.splitLoop, if_neg hzero, hi]
        simp only []
        rw [if_pos hlarge, if_pos hle, heq]
        rfl
    · have hlimit : smallAllocLimit = 4096 := rfl
      have hsmall : (size - 1) / 64 < 64 := by omega
      have hbucket : bucketSizes ((size - 1) / 64) = size := by
        rw [bucketSizes_small hsmall]
        omega
      refine ⟨[(size - 1) / 64], ?_, ?_, ?_⟩
      · intro j hj
        rw [List.mem_singleton.mp hj]
        unfold bucketCount
        omega
      · rw [List.map_singleton, List.sum_singleton, hbucket]
      · rw [Pool.splitLoop, if_neg hzero, sizeToIndex_small (by omega)]
        simp only []
        rw [if_neg (show ¬ largeBucketOffset ≤ _ from Nat.not_le_of_lt hsmall), if_pos hbucket]
        rfl

/-- **A block is split exactly**: what is left of it is cut into pieces of the sizes
of their buckets, and no assertion fails. -/
theorem splitBlock_eq (c : PoolConfig) (p : Pool) (ptr : Nat) {i j : Nat} (hi : i < bucketCount)
    (hj : j < i) :
    ∃ is : List Nat, (∀ k ∈ is, k < bucketCount) ∧
      bucketSizes j + (is.map bucketSizes).sum = bucketSizes i ∧
      p.splitBlock c ptr i j = .ok (p.pushAll c (ptr + bucketSizes j) is) := by
  have hlt := bucketSizes_lt hi hj
  have hmax := bucketSizes_le i hi
  have hpos := bucketSizes_pos j
  have hdvd : 64 ∣ bucketSizes i - bucketSizes j :=
    Nat.dvd_sub (dvd_bucketSizes i hi) (dvd_bucketSizes j (Nat.lt_trans hj hi))
  obtain ⟨is, his, hsum, heq⟩ := splitLoop_eq c p (ptr + bucketSizes j) hdvd (by omega)
  exact ⟨is, his, by omega, heq⟩

end Aoo
