import Mathlib.Data.List.Basic

/-!
# Cutting a list into chunks

`chunk l size j` is the `j`-th of the pieces of `size` elements into which a list
is cut; the last one may be shorter. `numChunks` counts them. `batches` cuts the
list on the way: it collects elements and hands them over when there are enough.
-/

namespace Aoo.Lib

/-- How many chunks of `size` elements it takes to cover `n` elements. -/
def numChunks (n size : Nat) : Nat := n / size + if n % size ≠ 0 then 1 else 0

theorem numChunks_zero (size : Nat) : numChunks 0 size = 0 := by
  simp [numChunks]

theorem le_numChunks_mul {n size : Nat} (h : 0 < size) : n ≤ numChunks n size * size := by
  have hdiv := Nat.div_add_mod n size
  have hlt := Nat.mod_lt n h
  rw [Nat.mul_comm] at hdiv
  unfold numChunks
  split
  · rw [Nat.add_mul, Nat.one_mul]
    omega
  · rw [Nat.add_zero]
    omega

/-- Every chunk begins inside the list. -/
theorem mul_lt_of_lt_numChunks {n size j : Nat} (hs : 0 < size) (h : j < numChunks n size) :
    j * size < n := by
  have hdiv := Nat.div_add_mod n size
  rw [Nat.mul_comm] at hdiv
  unfold numChunks at h
  split at h
  next hrem =>
    have := Nat.mul_le_mul_right size (show j ≤ n / size by omega)
    omega
  next hrem =>
    have := Nat.mul_le_mul_right size (show j + 1 ≤ n / size by omega)
    rw [Nat.add_mul, Nat.one_mul] at this
    omega

/-- Every chunk but the last is full. -/
theorem mul_le_of_lt_numChunks {n size j : Nat} (h : j + 1 < numChunks n size) :
    (j + 1) * size ≤ n := by
  rcases Nat.eq_zero_or_pos size with h0 | hs
  · rw [h0, Nat.mul_zero]
    exact Nat.zero_le _
  · exact Nat.le_of_lt (mul_lt_of_lt_numChunks hs h)

theorem numChunks_pos {n size : Nat} (hs : 0 < size) (hn : 0 < n) : 0 < numChunks n size := by
  have hle := @le_numChunks_mul n size hs
  rcases Nat.eq_zero_or_pos (numChunks n size) with h0 | h0
  · rw [h0] at hle
    omega
  · exact h0

variable {α : Type}

/-- The `j`-th chunk. -/
def chunk (l : List α) (size j : Nat) : List α := (l.drop (j * size)).take size

/-- The first `k` chunks, put together. -/
theorem flatMap_chunk (l : List α) (size k : Nat) :
    (List.range k).flatMap (chunk l size) = l.take (k * size) := by
  induction k with
  | zero => simp
  | succ k ih =>
    rw [List.range_succ, List.flatMap_append, ih, List.flatMap_singleton, Nat.add_mul,
      Nat.one_mul, List.take_add]
    rfl

/-- **All chunks, put together, are the list.** -/
theorem flatMap_chunk_of_le {l : List α} {size k : Nat} (hk : numChunks l.length size ≤ k)
    (hs : l ≠ [] → 0 < size) : (List.range k).flatMap (chunk l size) = l := by
  rw [flatMap_chunk]
  by_cases hnil : l = []
  · simp [hnil]
  · have hle := @le_numChunks_mul l.length size (hs hnil)
    exact List.take_of_length_le (Nat.le_trans hle (Nat.mul_le_mul_right _ hk))

/-- Cutting the last chunk at the end of the list is the same. -/
theorem take_chunk {l : List α} {size j n : Nat} (hn : l.length - j * size ≤ n)
    (hs : l.length - j * size ≤ size) : (l.drop (j * size)).take n = chunk l size j := by
  rw [chunk, List.take_of_length_le (by rw [List.length_drop]; exact hn),
    List.take_of_length_le (by rw [List.length_drop]; exact hs)]

/-! ## Batches -/

/-- Collect the elements behind those that are pending, and hand them over when
there are `size` of them; at the end hand over what is left. -/
def batches (size : Nat) : List α → (pending : List α) → List (List α)
  | [], pending => if pending.length > 0 then [pending] else []
  | x :: xs, pending =>
    if pending.length + 1 ≥ size then (pending ++ [x]) :: batches size xs []
    else batches size xs (pending ++ [x])

/-- **Nothing is lost or handed over twice.** -/
theorem batches_flatten (size : Nat) (xs pending : List α) :
    (batches size xs pending).flatten = pending ++ xs := by
  induction xs generalizing pending with
  | nil =>
    unfold batches
    split
    next => simp
    next hlen =>
      obtain rfl : pending = [] := List.length_eq_zero_iff.mp (by omega)
      rfl
  | cons x xs ih =>
    unfold batches
    split
    next => rw [List.flatten_cons, ih, List.nil_append, List.append_assoc, List.singleton_append]
    next => rw [ih, List.append_assoc, List.singleton_append]

/-- A batch has at most `size` elements, and no more than there are. -/
theorem length_of_mem_batches {size : Nat} {xs pending b : List α} (hp : pending.length < size)
    (hb : b ∈ batches size xs pending) :
    b.length ≤ size ∧ b.length ≤ pending.length + xs.length := by
  induction xs generalizing pending with
  | nil =>
    unfold batches at hb
    split at hb
    next =>
      rw [List.mem_singleton.mp hb]
      exact ⟨Nat.le_of_lt hp, Nat.le_add_right ..⟩
    next => cases hb
  | cons x xs ih =>
    unfold batches at hb
    have hlen : (pending ++ [x]).length = pending.length + 1 := by simp
    rw [List.length_cons]
    split at hb
    next hfull =>
      rcases List.mem_cons.mp hb with rfl | hb
      · omega
      · have := @ih [] (Nat.zero_lt_of_lt hp) hb
        rw [List.length_nil] at this
        omega
    next =>
      have := @ih (pending ++ [x]) (by omega) hb
      omega

/-- One batch is full if there are enough elements. -/
theorem exists_full_batch {size : Nat} {xs pending : List α} (hp : pending.length < size)
    (h : size ≤ pending.length + xs.length) : ∃ b ∈ batches size xs pending, b.length = size := by
  induction xs generalizing pending with
  | nil =>
    rw [List.length_nil] at h
    omega
  | cons x xs ih =>
    rw [List.length_cons] at h
    have hlen : (pending ++ [x]).length = pending.length + 1 := by simp
    unfold batches
    split
    next => exact ⟨_, List.mem_cons_self .., by omega⟩
    next => exact ih (by omega) (by omega)

end Aoo.Lib
