import Mathlib.Tactic.Ring
import Mathlib.Algebra.Order.Ring.Int

/-!
# Big-endian byte fields

Every fixed-width field of a binary wire format is written most significant
byte first. `toBytes k v` is the `k`-byte field of `v` (its low `8 * k` bits),
`fromBytes` reads a whole byte string back, and `field` reads the `k` bytes at
the front of the input, so that a parser alternates `field` and `drop`.

Signed fields are two's complement: `unsigned` maps an integer to its bit
pattern, `signed` maps a bit pattern back, and `signed_unsigned` says that the
pair is lossless on the range of the type.
-/

namespace Aoo.Lib

/-- The low `k` bytes of `v`, most significant first. -/
def toBytes : Nat → Nat → List UInt8
  | 0, _ => []
  | k + 1, v => UInt8.ofNat (v / 256 ^ k) :: toBytes k v

/-- The number a big-endian byte string denotes. -/
def fromBytes : List UInt8 → Nat
  | [] => 0
  | b :: bs => b.toNat * 256 ^ bs.length + fromBytes bs

@[simp] theorem toBytes_length (k v : Nat) : (toBytes k v).length = k := by
  induction k with
  | zero => rfl
  | succ k ih => simp [toBytes, ih]

theorem fromBytes_toBytes (k v : Nat) : fromBytes (toBytes k v) = v % 256 ^ k := by
  induction k with
  | zero => simp [toBytes, fromBytes, Nat.mod_one]
  | succ k ih =>
    have hbyte : (UInt8.ofNat (v / 256 ^ k)).toNat = v / 256 ^ k % 256 := by
      rw [UInt8.toNat_ofNat']
    rw [toBytes, fromBytes, toBytes_length, ih, hbyte, Nat.pow_succ, Nat.mod_mul,
      Nat.mul_comm (256 ^ k), Nat.add_comm]

theorem fromBytes_lt (bs : List UInt8) : fromBytes bs < 256 ^ bs.length := by
  induction bs with
  | nil => simp [fromBytes]
  | cons b bs ih =>
    have hb := b.toNat_lt
    have hmul : b.toNat * 256 ^ bs.length ≤ 255 * 256 ^ bs.length :=
      Nat.mul_le_mul_right _ (by omega)
    rw [fromBytes, List.length_cons, Nat.pow_succ]
    omega

/-- A field shows only the low bits of a number. -/
theorem toBytes_congr : ∀ (k : Nat) {v w : Nat}, v % 256 ^ k = w % 256 ^ k →
    toBytes k v = toBytes k w := by
  intro k
  induction k with
  | zero =>
    intro v w _
    rfl
  | succ k ih =>
    intro v w h
    have hdiv : ∀ x : Nat, x % 256 ^ (k + 1) / 256 ^ k = x / 256 ^ k % 256 := by
      intro x
      rw [Nat.pow_succ, Nat.mod_mul_right_div_self]
    have hbyte : v / 256 ^ k % 256 = w / 256 ^ k % 256 := by
      rw [← hdiv v, ← hdiv w, h]
    have hrest : v % 256 ^ k = w % 256 ^ k := by
      rw [← Nat.mod_mod_of_dvd v (Nat.pow_dvd_pow 256 (Nat.le_succ k)), h,
        Nat.mod_mod_of_dvd w (Nat.pow_dvd_pow 256 (Nat.le_succ k))]
    have hcons : UInt8.ofNat (v / 256 ^ k) = UInt8.ofNat (w / 256 ^ k) := by
      apply UInt8.toNat_inj.mp
      rw [UInt8.toNat_ofNat', UInt8.toNat_ofNat']
      exact hbyte
    rw [toBytes, toBytes, ih hrest, hcons]

/-- A byte string is the field of the number it denotes. -/
theorem toBytes_fromBytes (bs : List UInt8) : toBytes bs.length (fromBytes bs) = bs := by
  induction bs with
  | nil => rfl
  | cons b bs ih =>
    have hfront : (b.toNat * 256 ^ bs.length + fromBytes bs) / 256 ^ bs.length = b.toNat := by
      rw [Nat.mul_comm, Nat.mul_add_div (Nat.pow_pos (by omega)),
        Nat.div_eq_of_lt (fromBytes_lt bs), Nat.add_zero]
    have htail : toBytes bs.length (b.toNat * 256 ^ bs.length + fromBytes bs) = bs := by
      rw [toBytes_congr bs.length (w := fromBytes bs) (Nat.mul_add_mod_self_right ..), ih]
    rw [List.length_cons, toBytes, fromBytes, hfront, htail, UInt8.ofNat_toNat]

/-! ## Reading fields off the front of the input -/

/-- The `k`-byte field at the front of the input. -/
def field (k : Nat) (bs : List UInt8) : Nat := fromBytes (bs.take k)

/-- A field that was just written reads back, modulo its width. -/
@[simp] theorem field_append (k v : Nat) (rest : List UInt8) :
    field k (toBytes k v ++ rest) = v % 256 ^ k := by
  rw [field, List.take_left' (toBytes_length k v), fromBytes_toBytes]

theorem field_lt (k : Nat) (bs : List UInt8) : field k bs < 256 ^ k := by
  have hlen : (bs.take k).length ≤ k := by
    rw [List.length_take]
    omega
  exact Nat.lt_of_lt_of_le (fromBytes_lt _) (Nat.pow_le_pow_right (by decide) hlen)

@[simp] theorem drop_toBytes_append (k v : Nat) (rest : List UInt8) :
    (toBytes k v ++ rest).drop k = rest :=
  List.drop_left' (toBytes_length k v)

/-- Skipping past a field skips it and then the rest. -/
theorem drop_toBytes_append_of_le {k n : Nat} (h : k ≤ n) (v : Nat) (rest : List UInt8) :
    (toBytes k v ++ rest).drop n = rest.drop (n - k) := by
  rw [List.drop_append, toBytes_length, List.drop_eq_nil_of_le (by rw [toBytes_length]; exact h),
    List.nil_append]

/-- A section of `n` bytes that is there only if `present`: its value and the
input behind it, `none` when the input is too short. -/
def readIf {α : Type} (present : Bool) (n : Nat) (read : List UInt8 → α) (default : α)
    (bs : List UInt8) : Option (α × List UInt8) :=
  if present then
    if bs.length < n then none else some (read bs, bs.drop n)
  else some (default, bs)

theorem readIf_append {α : Type} (present : Bool) {n : Nat} (read : List UInt8 → α) (default : α)
    {w : List UInt8} (hw : w.length = n) (rest : List UInt8) :
    readIf present n read default ((if present then w else []) ++ rest) =
      some (if present then read (w ++ rest) else default, rest) := by
  cases present with
  | false => rfl
  | true =>
    have hlen : ¬ (w ++ rest).length < n := by
      rw [List.length_append]
      omega
    simp only [readIf, if_true, if_neg hlen, List.drop_left' hw]

/-! ## Two's complement -/

/-- The integer with bit pattern `n` in a signed type with `m` values. -/
def signed (m : Nat) (n : Nat) : Int := Int.bmod n m

/-- The lower half of the bit patterns are the nonnegative values. -/
theorem signed_of_lt {m n : Nat} (h : 2 * n < m) : signed m n = n :=
  Int.bmod_eq_of_le_mul_two (by omega) (by omega)

/-- The others are negative. -/
theorem signed_of_nonneg {m n : Nat} (hn : n < m) (h : 0 ≤ signed m n) : signed m n = n := by
  unfold signed at h ⊢
  have hmod : (n : Int) % (m : Int) = n := Int.emod_eq_of_lt (by omega) (by omega)
  rw [Int.bmod_def, hmod] at h ⊢
  split at h
  next hlt => rw [if_pos hlt]
  next => omega

theorem signed_le {m n : Nat} (hn : n < m) : signed m n ≤ n := by
  rcases le_or_gt 0 (signed m n) with h | h
  · exact (signed_of_nonneg hn h).le
  · omega

/-- The bit pattern of `v` in a type with `m` values. -/
def unsigned (m : Nat) (v : Int) : Nat := (v % m).toNat

theorem unsigned_lt {m : Nat} (hm : 0 < m) (v : Int) : unsigned m v < m := by
  have h0 : 0 ≤ v % (m : Int) := Int.emod_nonneg _ (by omega)
  have h1 : v % (m : Int) < m := Int.emod_lt_of_pos _ (by omega)
  unfold unsigned
  omega

/-- A nonnegative value below the modulus is its own bit pattern. -/
theorem unsigned_of_lt {m : Nat} {v : Int} (h0 : 0 ≤ v) (h1 : v < m) :
    (unsigned m v : Int) = v := by
  unfold unsigned
  rw [Int.emod_eq_of_lt h0 h1]
  omega

theorem unsigned_toNat_of_lt {m : Nat} {v : Int} (h0 : 0 ≤ v) (h1 : v < m) :
    unsigned m v = v.toNat := by
  have := unsigned_of_lt h0 h1
  omega

/-- Two's complement loses nothing on the range of the signed type. -/
theorem signed_unsigned {m : Nat} {v : Int} (hm : 0 < m)
    (h0 : -(m : Int) ≤ 2 * v) (h1 : 2 * v < m) : signed m (unsigned m v) = v := by
  have hpos : 0 ≤ v % (m : Int) := Int.emod_nonneg _ (by omega)
  unfold signed unsigned
  rw [Int.toNat_of_nonneg hpos, Int.emod_bmod]
  exact Int.bmod_eq_of_le_mul_two (by omega) (by omega)

end Aoo.Lib
