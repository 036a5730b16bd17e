import Mathlib.Tactic.Ring
import Mathlib.Algebra.Order.Ring.Int

/-!
# Writing into a buffer

`writeAt buf i xs` is `std::copy(xs, buf + i)`: it overwrites the part of the
buffer that starts at `i`. `copyTo` is the guarded version, which says whether
the copy stays inside the buffer; copying nothing is always inside, even
without a buffer.
-/

namespace Aoo.Lib

variable {α : Type}

/-- Overwrite `buf` from position `i` on. -/
def writeAt (buf : List α) (i : Nat) (xs : List α) : List α :=
  buf.take i ++ xs ++ buf.drop (i + xs.length)

theorem writeAt_length {buf : List α} {i : Nat} {xs : List α}
    (h : i + xs.length ≤ buf.length) : (writeAt buf i xs).length = buf.length := by
  simp only [writeAt, List.length_append, List.length_take, List.length_drop]
  omega

/-- Overwriting a middle part of the same length replaces it. -/
theorem writeAt_append {a old c xs : List α} (h : xs.length = old.length) :
    writeAt (a ++ (old ++ c)) a.length xs = a ++ (xs ++ c) := by
  rw [writeAt, List.take_left, List.append_assoc, ← List.drop_drop, List.drop_left, h,
    List.drop_left]

/-- What stands at `j` after the copy: the new element where one was written,
the old one everywhere else. -/
theorem getElem?_writeAt {buf : List α} {i : Nat} {xs : List α}
    (h : i + xs.length ≤ buf.length) (j : Nat) :
    (writeAt buf i xs)[j]? =
      if i ≤ j ∧ j < i + xs.length then xs[j - i]? else buf[j]? := by
  have htake : (buf.take i).length = i := by
    rw [List.length_take]
    omega
  rw [writeAt, List.append_assoc]
  by_cases h1 : j < i
  · rw [List.getElem?_append_left (by omega), List.getElem?_take_of_lt h1, if_neg (by omega)]
  · rw [List.getElem?_append_right (by omega), htake]
    by_cases h2 : j < i + xs.length
    · rw [List.getElem?_append_left (by omega), if_pos ⟨by omega, h2⟩]
    · rw [List.getElem?_append_right (by omega), List.getElem?_drop, if_neg (by omega)]
      congr 1
      omega

/-- What is in front of the copy stays. -/
theorem prefix_writeAt {a buf : List α} (ha : a <+: buf) {i : Nat} (hi : a.length ≤ i)
    (xs : List α) : a <+: writeAt buf i xs := by
  rw [writeAt, List.append_assoc]
  exact (List.prefix_take_iff.mpr ⟨ha, hi⟩).trans (List.prefix_append _ _)

/-- A copy right behind `a`. -/
theorem append_prefix_writeAt {a buf : List α} (ha : a <+: buf) (xs : List α) :
    a ++ xs <+: writeAt buf a.length xs := by
  rw [writeAt, ← List.prefix_iff_eq_take.mp ha]
  exact List.prefix_append _ _

/-- Does a copy of `n` elements to `onset` stay inside the buffer? A missing
buffer is a null pointer. -/
def CopyFits (buf : Option (List α)) (onset : Int) (n : Nat) : Prop :=
  n = 0 ∨ ∃ b, buf = some b ∧ 0 ≤ onset ∧ onset + n ≤ b.length

instance (buf : Option (List α)) (onset : Int) (n : Nat) : Decidable (CopyFits buf onset n) :=
  match buf with
  | none => decidable_of_iff (n = 0) ⟨Or.inl, fun h => h.elim id (fun ⟨_, h, _⟩ => by cases h)⟩
  | some b => decidable_of_iff (n = 0 ∨ (0 ≤ onset ∧ onset + n ≤ b.length))
      ⟨fun h => h.imp id (fun h => ⟨b, rfl, h⟩), fun h => h.imp id (fun ⟨_, rfl, h⟩ => h)⟩

/-- The buffer after a copy that fits. -/
def copyTo (buf : Option (List α)) (onset : Int) (xs : List α) : Option (List α) :=
  buf.map fun b => writeAt b onset.toNat xs

theorem copyFits_some {b : List α} {onset : Int} {n : Nat} :
    CopyFits (some b) onset n ↔ n = 0 ∨ (0 ≤ onset ∧ onset + n ≤ b.length) :=
  ⟨fun h => h.imp id (fun ⟨_, rfl, h⟩ => h), fun h => h.imp id (fun h => ⟨b, rfl, h⟩)⟩

/-- A copy that fits keeps the size of the buffer. -/
theorem writeAt_toNat_length {b : List α} {onset : Int} {xs : List α}
    (h : CopyFits (some b) onset xs.length) : (writeAt b onset.toNat xs).length = b.length := by
  rcases copyFits_some.mp h with h0 | ⟨h1, h2⟩
  · rw [List.eq_nil_of_length_eq_zero h0]
    simp [writeAt]
  · exact writeAt_length (by omega)

/-! ## Rebuilding a buffer from slices -/

/-- The buffer holds `content` at the positions `W` and is unset elsewhere. -/
structure Filled (content : List α) (W : Nat → Prop) (b : List (Option α)) : Prop where
  length : b.length = content.length
  set : ∀ (j : Nat) (x : α), content[j]? = some x → W j → b[j]? = some (some x)
  unset : ∀ j < content.length, ¬ W j → b[j]? = some none

theorem filled_replicate (content : List α) :
    Filled content (fun _ => False) (List.replicate content.length none) :=
  ⟨List.length_replicate, fun _ _ _ h => h.elim,
    fun j hj _ => by rw [List.getElem?_replicate, if_pos hj]⟩

/-- Writing a slice of the content to its place fills its positions. -/
theorem Filled.writeAt {content : List α} {W : Nat → Prop} {b : List (Option α)}
    (h : Filled content W b) {o l : Nat} (hol : o + l ≤ content.length) :
    Filled content (fun j => W j ∨ (o ≤ j ∧ j < o + l))
      (writeAt b o (((content.drop o).take l).map some)) := by
  have hlen : (((content.drop o).take l).map some).length = l := by
    rw [List.length_map, List.length_take, List.length_drop]
    omega
  have hfit : o + (((content.drop o).take l).map some).length ≤ b.length := by
    rw [hlen, h.length]
    exact hol
  refine ⟨(writeAt_length hfit).trans h.length, ?_, ?_⟩
  · intro j x hx hw
    rw [getElem?_writeAt hfit, hlen]
    by_cases hin : o ≤ j ∧ j < o + l
    · rw [if_pos hin, List.getElem?_map, List.getElem?_take_of_lt (by omega),
        List.getElem?_drop, show o + (j - o) = j by omega, hx]
      rfl
    · rw [if_neg hin]
      exact h.set j x hx (hw.resolve_right hin)
  · intro j hj hw
    rw [getElem?_writeAt hfit, hlen, if_neg (fun hin => hw (Or.inr hin))]
    exact h.unset j hj (fun hwj => hw (Or.inl hwj))

/-- The content is complete exactly when every position is filled. -/
theorem Filled.eq_iff {content : List α} {W : Nat → Prop} {b : List (Option α)}
    (h : Filled content W b) : b = content.map some ↔ ∀ j < content.length, W j := by
  constructor
  · intro hb j hj
    by_contra hw
    have hun := h.unset j hj hw
    rw [hb, List.getElem?_map, List.getElem?_eq_getElem hj] at hun
    simp at hun
  · intro hall
    refine List.ext_getElem? fun j => ?_
    by_cases hj : j < content.length
    · rw [List.getElem?_map, List.getElem?_eq_getElem hj]
      exact h.set j _ (List.getElem?_eq_getElem hj) (hall j hj)
    · rw [List.getElem?_eq_none (by rw [h.length]; omega),
        List.getElem?_eq_none (by rw [List.length_map]; omega)]

end Aoo.Lib
