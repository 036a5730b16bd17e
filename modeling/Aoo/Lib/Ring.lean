import Mathlib.Data.List.GetD

/-!
# Ring buffers

A ring keeps a queue in a fixed list of slots: the `i`-th element of the queue
is in slot `(tail + i) % slots.length`. `Holds slots tail xs` says that the
queue is `xs`; the lemmas say what it is after a push, a push that overwrites
the oldest element, a pop and an assignment.

`Recent` is a ring that is only written to and keeps the last values, as many as it
has slots: before the first wrap they start in slot 0, afterwards in the slot that is
written next.
-/

namespace Aoo.Lib

variable {α : Type}

/-- The ring holds the queue `xs`, whose front is in slot `tail`. -/
structure Holds (slots : List α) (tail : Nat) (xs : List α) : Prop where
  fits : xs.length ≤ slots.length
  start : tail < slots.length
  at_eq : ∀ i < xs.length, slots[(tail + i) % slots.length]? = xs[i]?

theorem holds_nil {slots : List α} {tail : Nat} (h : tail < slots.length) : Holds slots tail [] :=
  ⟨Nat.zero_le _, h, fun _ hi => absurd hi (Nat.not_lt_zero _)⟩

/-- Different positions of the queue are in different slots. -/
theorem slot_ne {cap tail i j : Nat} (hi : i < cap) (hj : j < cap) (hne : i ≠ j) :
    (tail + i) % cap ≠ (tail + j) % cap := by
  intro h
  have h1 := Nat.div_add_mod (tail + i) cap
  have h2 := Nat.div_add_mod (tail + j) cap
  rw [h] at h1
  rcases Nat.lt_trichotomy ((tail + i) / cap) ((tail + j) / cap) with hd | hd | hd
  · have := Nat.mul_le_mul_left cap hd
    rw [Nat.mul_succ] at this
    omega
  · rw [hd] at h1
    omega
  · have := Nat.mul_le_mul_left cap hd
    rw [Nat.mul_succ] at this
    omega

/-- A write into a free slot leaves the queue alone. -/
theorem Holds.set_free {slots xs : List α} {tail : Nat} (h : Holds slots tail xs)
    (hroom : xs.length < slots.length) (x : α) :
    Holds (slots.set ((tail + xs.length) % slots.length) x) tail xs := by
  refine ⟨?_, ?_, fun i hi => ?_⟩
  · rw [List.length_set]
    exact h.fits
  · rw [List.length_set]
    exact h.start
  · rw [List.length_set, List.getElem?_set_ne (slot_ne hroom (by omega) (by omega))]
    exact h.at_eq i hi

/-- What stands in the first free slot can be taken into the queue. -/
theorem Holds.extend {slots xs : List α} {tail : Nat} (h : Holds slots tail xs)
    (hroom : xs.length < slots.length) {x : α}
    (hx : slots[(tail + xs.length) % slots.length]? = some x) : Holds slots tail (xs ++ [x]) := by
  refine ⟨?_, h.start, fun i hi => ?_⟩
  · rw [List.length_append, List.length_singleton]
    omega
  · rw [List.length_append, List.length_singleton] at hi
    by_cases hlast : i = xs.length
    · rw [hlast, hx, List.getElem?_append_right (Nat.le_refl _), Nat.sub_self]
      rfl
    · rw [List.getElem?_append_left (by omega)]
      exact h.at_eq i (by omega)

/-- A push into a free slot. -/
theorem Holds.push {slots xs : List α} {tail : Nat} (h : Holds slots tail xs)
    (hroom : xs.length < slots.length) (x : α) :
    Holds (slots.set ((tail + xs.length) % slots.length) x) tail (xs ++ [x]) := by
  refine (h.set_free hroom x).extend ?_ ?_
  · rw [List.length_set]
    exact hroom
  · rw [List.length_set]
    exact List.getElem?_set_self (Nat.mod_lt _ (by omega))

/-- A pop moves the tail. -/
theorem Holds.pop {slots xs : List α} {tail : Nat} {x : α} (h : Holds slots tail (x :: xs)) :
    Holds slots ((tail + 1) % slots.length) xs := by
  have hfits := h.fits
  rw [List.length_cons] at hfits
  refine ⟨by omega, Nat.mod_lt _ (by omega), fun i hi => ?_⟩
  have := h.at_eq (i + 1) (by rw [List.length_cons]; omega)
  rw [Nat.mod_add_mod, Nat.add_assoc, Nat.add_comm 1 i, this, List.getElem?_cons_succ]

/-- A push into a full ring replaces the oldest element. -/
theorem Holds.push_full {slots xs : List α} {tail : Nat} {x : α} (h : Holds slots tail (x :: xs))
    (hfull : (x :: xs).length = slots.length) (y : α) :
    Holds (slots.set tail y) ((tail + 1) % slots.length) (xs ++ [y]) := by
  have hpop := h.pop
  rw [List.length_cons] at hfull
  have hslot : ((tail + 1) % slots.length + xs.length) % slots.length = tail := by
    rw [Nat.mod_add_mod, Nat.add_assoc, Nat.add_comm 1 xs.length, hfull, Nat.add_mod_right]
    exact Nat.mod_eq_of_lt h.start
  have := hpop.push (by omega) y
  rwa [hslot] at this

/-- An assignment through a position of the queue. -/
theorem Holds.set {slots xs : List α} {tail i : Nat} (h : Holds slots tail xs)
    (hi : i < xs.length) (x : α) :
    Holds (slots.set ((tail + i) % slots.length) x) tail (xs.set i x) := by
  have hfits := h.fits
  have hlt : (tail + i) % slots.length < slots.length := Nat.mod_lt _ (by omega)
  refine ⟨?_, ?_, ?_⟩
  · rw [List.length_set, List.length_set]
    exact hfits
  · rw [List.length_set]
    exact h.start
  · intro j hj
    rw [List.length_set] at hj ⊢
    by_cases hji : j = i
    · rw [hji, List.getElem?_set_self hlt, List.getElem?_set_self hi]
    · rw [List.getElem?_set_ne (slot_ne (by omega) (by omega) (fun hc => hji hc.symm)),
        List.getElem?_set_ne (fun hc => hji hc.symm)]
      exact h.at_eq j hj

/-! ## The last values -/

/-- After the values `seen`, of which `count` are in the slots, `write` is the slot for the
next one. -/
structure Recent (slots : List α) (write count : Nat) (seen : List α) : Prop where
  count_eq : count = min seen.length slots.length
  write_eq : count < slots.length → write = count
  holds : Holds slots (if count = slots.length then write else 0)
    (seen.drop (seen.length - slots.length))

theorem recent_nil {slots : List α} (h : 0 < slots.length) : Recent slots 0 0 [] where
  count_eq := (Nat.zero_min _).symm
  write_eq _ := rfl
  holds := by
    rw [List.drop_nil, ite_self]
    exact holds_nil h

theorem Recent.push {slots seen : List α} {write count : Nat} (h : Recent slots write count seen)
    (x : α) :
    Recent (slots.set write x) ((write + 1) % slots.length) (min (count + 1) slots.length)
      (seen ++ [x]) := by
  obtain ⟨hcount, hwrite, hholds⟩ := h
  have hpos : 0 < slots.length := Nat.lt_of_le_of_lt (Nat.zero_le _) hholds.start
  by_cases hfull : count = slots.length
  · -- the oldest value goes
    rw [if_pos hfull] at hholds
    obtain ⟨y, ys, hys⟩ : ∃ y ys, seen.drop (seen.length - slots.length) = y :: ys := by
      refine List.exists_cons_of_length_pos ?_
      rw [List.length_drop]
      omega
    have hlen : (y :: ys).length = slots.length := by
      rw [← hys, List.length_drop]
      omega
    have hpush := (hys ▸ hholds).push_full hlen x
    have hdrop : (seen ++ [x]).drop ((seen ++ [x]).length - slots.length) = ys ++ [x] := by
      rw [List.length_append, List.length_singleton,
        show seen.length + 1 - slots.length = seen.length - slots.length + 1 by omega,
        ← List.drop_drop, List.drop_append_of_le_length (by omega), hys]
      rfl
    refine ⟨?_, fun hlt => ?_, ?_⟩
    · rw [List.length_append, List.length_singleton, List.length_set]
      omega
    · rw [List.length_set] at hlt
      omega
    · rw [List.length_set, hdrop, if_pos (by omega)]
      exact hpush
  · have hwrite := hwrite (by omega)
    have hshort : seen.length - slots.length = 0 := by omega
    rw [if_neg hfull, hshort, List.drop_zero] at hholds
    have hpush := hholds.push (by omega) x
    rw [Nat.zero_add, Nat.mod_eq_of_lt (by omega), show seen.length = write by omega] at hpush
    refine ⟨?_, fun hlt => ?_, ?_⟩
    · rw [List.length_append, List.length_singleton, List.length_set]
      omega
    · rw [List.length_set] at hlt
      rw [hwrite, Nat.mod_eq_of_lt (by omega)]
      omega
    · rw [List.length_set, List.length_append, List.length_singleton,
        show seen.length + 1 - slots.length = 0 by omega, List.drop_zero]
      split
      next hlast =>
        rw [show write + 1 = slots.length by omega, Nat.mod_self]
        exact hpush
      next => exact hpush

/-- Reading the slots from the oldest value on. -/
theorem Recent.read {slots seen : List α} {write count : Nat} (h : Recent slots write count seen)
    (d : α) :
    (List.range count).map (fun i =>
      slots.getD (if count = slots.length then (write + i) % slots.length else i) d) =
        seen.drop (seen.length - slots.length) := by
  obtain ⟨hcount, -, hholds⟩ := h
  have hlen : (seen.drop (seen.length - slots.length)).length = count := by
    rw [List.length_drop]
    omega
  refine List.ext_getElem? fun i => ?_
  by_cases hi : i < count
  · have hat := hholds.at_eq i (by omega)
    have hslot : (if count = slots.length then (write + i) % slots.length else i) =
        ((if count = slots.length then write else 0) + i) % slots.length := by
      split
      next => rfl
      next => rw [Nat.zero_add, Nat.mod_eq_of_lt (by omega)]
    rw [List.getElem?_map, List.getElem?_range hi, Option.map_some, hslot,
      List.getD_eq_getElem?_getD, hat, List.getElem?_eq_getElem (by omega), Option.getD_some]
  · rw [List.getElem?_eq_none (by rw [List.length_map, List.length_range]; omega),
      List.getElem?_eq_none (by omega)]

end Aoo.Lib
