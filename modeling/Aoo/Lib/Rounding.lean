import Mathlib.Data.Int.Log
import Mathlib.Data.Rat.Floor
import Mathlib.Tactic.Linarith

/-!
# Rounding to binary floating point

The result of an operation on binary floating-point numbers is the exact result,
rounded to the nearest number whose significand has `p` bits; of two that are equally
near the one with the even significand is taken. Values are rationals here and the
exponent has no bounds: there are no infinities, and no numbers with fewer bits near
zero.
-/

namespace Aoo.Lib

/-- The nearest integer, of two that are equally near the even one. -/
def roundEven (q : ℚ) : Int :=
  let n := ⌊q⌋
  if q - n < 1 / 2 ∨ (q - n = 1 / 2 ∧ n % 2 = 0) then n else n + 1

/-- The weight of the last of the `p` bits of a significand. -/
def lastPlace (p : Nat) (q : ℚ) : ℚ := 2 ^ (Int.log 2 |q| + 1 - p)

/-- The nearest number with a significand of `p` bits. -/
def binaryRound (p : Nat) (q : ℚ) : ℚ :=
  if q = 0 then 0 else roundEven (q / lastPlace p q) * lastPlace p q

/-- An operation on `double`. -/
def double (q : ℚ) : ℚ := binaryRound 53 q

/-- An operation on `float`. -/
def float (q : ℚ) : ℚ := binaryRound 24 q

example : double (24000 / 44100) = 4901877145437275 / 9007199254740992 := by decide +kernel

theorem abs_roundEven_sub_le (q : ℚ) : |roundEven q - q| ≤ 1 / 2 := by
  have hlow := Int.floor_le q
  have hhigh := Int.lt_floor_add_one q
  dsimp only [roundEven]
  rw [abs_le]
  split
  next hdown =>
    rcases hdown with hless | ⟨hhalf, -⟩ <;> constructor <;> linarith
  next hup =>
    have hmore : 1 / 2 ≤ q - ⌊q⌋ := not_lt.mp fun hless => hup (Or.inl hless)
    push_cast
    constructor <;> linarith

theorem roundEven_intCast (n : Int) : roundEven n = n := by
  dsimp only [roundEven]
  rw [Int.floor_intCast, sub_self, if_pos (Or.inl one_half_pos)]

theorem floor_le_roundEven (q : ℚ) : ⌊q⌋ ≤ roundEven q := by
  dsimp only [roundEven]
  split <;> omega

theorem roundEven_le_floor_add_one (q : ℚ) : roundEven q ≤ ⌊q⌋ + 1 := by
  dsimp only [roundEven]
  split <;> omega

/-- Rounding to integers keeps the order. -/
theorem roundEven_mono {q r : ℚ} (h : q ≤ r) : roundEven q ≤ roundEven r := by
  rcases lt_or_eq_of_le (Int.floor_le_floor h) with hless | heq
  · calc roundEven q ≤ ⌊q⌋ + 1 := roundEven_le_floor_add_one q
      _ ≤ ⌊r⌋ := hless
      _ ≤ roundEven r := floor_le_roundEven r
  · -- Between the same integers, `q` goes down wherever `r` does.
    have hdown : r - ⌊r⌋ < 1 / 2 ∨ (r - ⌊r⌋ = 1 / 2 ∧ ⌊r⌋ % 2 = 0) →
        q - ⌊r⌋ < 1 / 2 ∨ (q - ⌊r⌋ = 1 / 2 ∧ ⌊r⌋ % 2 = 0) := by
      rintro (hless | ⟨hhalf, heven⟩)
      · exact Or.inl (by linarith)
      · rcases lt_or_eq_of_le (show q - ⌊r⌋ ≤ 1 / 2 by linarith) with hq | hq
        · exact Or.inl hq
        · exact Or.inr ⟨hq, heven⟩
    dsimp only [roundEven]
    rw [heq]
    split
    next => split <;> omega
    next hq =>
      rw [if_neg fun hr => hq (hdown hr)]

theorem lastPlace_pos (p : Nat) (q : ℚ) : 0 < lastPlace p q := zpow_pos two_pos _

/-- The significand of a number that is not zero has its highest bit. -/
theorem lastPlace_le {p : Nat} (hp : 0 < p) {q : ℚ} (h : q ≠ 0) : lastPlace p q ≤ |q| := by
  have hexp : Int.log 2 |q| + 1 - p ≤ Int.log 2 |q| := by omega
  calc lastPlace p q ≤ 2 ^ Int.log 2 |q| := zpow_le_zpow_right₀ one_le_two hexp
    _ ≤ |q| := Int.zpow_log_le_self one_lt_two (abs_pos.mpr h)

@[simp] theorem binaryRound_zero (p : Nat) : binaryRound p 0 = 0 := if_pos rfl

@[simp] theorem double_zero : double 0 = 0 := binaryRound_zero 53

/-- A positive number stays positive. -/
theorem binaryRound_pos {p : Nat} (hp : 0 < p) {q : ℚ} (h : 0 < q) : 0 < binaryRound p q := by
  have hplace := lastPlace_pos p q
  have hone : 1 ≤ q / lastPlace p q := by
    have hle := lastPlace_le hp h.ne'
    rw [abs_of_pos h] at hle
    exact (one_le_div hplace).mpr hle
  have hround := (abs_le.mp (abs_roundEven_sub_le (q / lastPlace p q))).1
  rw [binaryRound, if_neg h.ne']
  exact mul_pos (by linarith) hplace

/-- A negative number stays negative. -/
theorem binaryRound_neg {p : Nat} (hp : 0 < p) {q : ℚ} (h : q < 0) : binaryRound p q < 0 := by
  have hplace := lastPlace_pos p q
  have hone : q / lastPlace p q ≤ -1 := by
    have hle := lastPlace_le hp h.ne
    rw [abs_of_neg h] at hle
    rw [div_le_iff₀ hplace]
    linarith
  have hround := (abs_le.mp (abs_roundEven_sub_le (q / lastPlace p q))).2
  rw [binaryRound, if_neg h.ne]
  exact mul_neg_of_neg_of_pos (by linarith) hplace

theorem double_pos {q : ℚ} (h : 0 < q) : 0 < double q := binaryRound_pos (by decide) h

theorem double_ne_zero {q : ℚ} (h : q ≠ 0) : double q ≠ 0 := by
  rcases lt_or_gt_of_ne h with hneg | hpos
  · exact (binaryRound_neg (by decide) hneg).ne
  · exact (double_pos hpos).ne'

theorem div_lastPlace (p : Nat) (q : ℚ) (k : Int) :
    (2 : ℚ) ^ k / lastPlace p q = 2 ^ (k - (Int.log 2 |q| + 1 - p)) :=
  (zpow_sub₀ two_ne_zero ..).symm

/-- A number does not round past the next power of two. -/
theorem binaryRound_le_zpow (p : Nat) {q : ℚ} (h : 0 < q) :
    binaryRound p q ≤ 2 ^ (Int.log 2 q + 1) := by
  have hplace := lastPlace_pos p q
  have hpower : (2 : ℚ) ^ (Int.log 2 q + 1) / lastPlace p q = ((2 ^ p : Int) : ℚ) := by
    rw [div_lastPlace, abs_of_pos h, show Int.log 2 q + 1 - (Int.log 2 q + 1 - p) = p by omega]
    push_cast
    exact zpow_natCast ..
  have hle : q / lastPlace p q ≤ ((2 ^ p : Int) : ℚ) := by
    rw [← hpower]
    exact (div_le_div_iff_of_pos_right hplace).mpr (Int.lt_zpow_succ_log_self one_lt_two q).le
  have hround := roundEven_mono hle
  rw [roundEven_intCast] at hround
  rw [binaryRound, if_neg h.ne', ← div_mul_cancel₀ ((2 : ℚ) ^ (Int.log 2 q + 1)) hplace.ne', hpower]
  exact mul_le_mul_of_nonneg_right (by exact_mod_cast hround) hplace.le

/-- Nor past the power of two below it. -/
theorem zpow_le_binaryRound {p : Nat} (hp : 0 < p) {q : ℚ} (h : 0 < q) :
    2 ^ Int.log 2 q ≤ binaryRound p q := by
  have hplace := lastPlace_pos p q
  have hpower : (2 : ℚ) ^ Int.log 2 q / lastPlace p q = ((2 ^ (p - 1) : Int) : ℚ) := by
    rw [div_lastPlace, abs_of_pos h,
      show Int.log 2 q - (Int.log 2 q + 1 - p) = ((p - 1 : Nat) : Int) by omega]
    push_cast
    exact zpow_natCast ..
  have hle : ((2 ^ (p - 1) : Int) : ℚ) ≤ q / lastPlace p q := by
    rw [← hpower]
    exact (div_le_div_iff_of_pos_right hplace).mpr (Int.zpow_log_le_self one_lt_two h)
  have hround := roundEven_mono hle
  rw [roundEven_intCast] at hround
  rw [binaryRound, if_neg h.ne', ← div_mul_cancel₀ ((2 : ℚ) ^ Int.log 2 q) hplace.ne', hpower]
  exact mul_le_mul_of_nonneg_right (by exact_mod_cast hround) hplace.le

/-- **Rounding keeps the order**, within a power of two and from one to another. -/
theorem binaryRound_mono {p : Nat} (hp : 0 < p) {q r : ℚ} (h : 0 ≤ q) (hle : q ≤ r) :
    binaryRound p q ≤ binaryRound p r := by
  rcases h.eq_or_lt with rfl | hq
  · rw [binaryRound_zero]
    rcases hle.eq_or_lt with rfl | hr
    · exact (binaryRound_zero p).ge
    · exact (binaryRound_pos hp hr).le
  · have hr : 0 < r := hq.trans_le hle
    rcases lt_or_eq_of_le (Int.log_mono_right hq hle (b := 2)) with hless | heq
    · calc binaryRound p q ≤ 2 ^ (Int.log 2 q + 1) := binaryRound_le_zpow p hq
        _ ≤ 2 ^ Int.log 2 r := zpow_le_zpow_right₀ one_le_two hless
        _ ≤ binaryRound p r := zpow_le_binaryRound hp hr
    · have hplace : lastPlace p q = lastPlace p r := by
        rw [lastPlace, lastPlace, abs_of_pos hq, abs_of_pos hr, heq]
      rw [binaryRound, if_neg hq.ne', binaryRound, if_neg hr.ne', hplace]
      have hround := roundEven_mono
        ((div_le_div_iff_of_pos_right (lastPlace_pos p r)).mpr hle)
      exact mul_le_mul_of_nonneg_right (by exact_mod_cast hround) (lastPlace_pos p r).le

theorem lt_of_double_lt {q r : ℚ} (h : 0 ≤ r) (hlt : double q < double r) : q < r :=
  not_le.mp fun hle => absurd (binaryRound_mono (by decide) h hle) (not_le.mpr hlt)

end Aoo.Lib
