import Mathlib.Data.List.Basic
import Mathlib.Data.List.TakeWhile

/-!
# Reads that stay inside a byte string

A parser that gets a pointer and a size may look at the bytes in front of the size and at no
others. Here a read behind the end is an error of its own (`OutOfBounds`), so that "only
looks at bytes of the message" means "never fails with this error". `skip` is the loop that C
parsers consist of, and `skip_ok_iff` says that it stays inside exactly if it finds where to stop.
-/

namespace Aoo.Lib

/-- A byte behind the end was read. -/
inductive OutOfBounds
  | read
  deriving DecidableEq, Repr

/-- What is computed from bytes that have to be there. -/
abbrev Bounded := Except OutOfBounds

variable {α : Type}

/-- The element at the front. -/
def peek : List α → Bounded α
  | [] => .error .read
  | x :: _ => .ok x

/-- The element at a position. -/
def readAt (xs : List α) (i : Nat) : Bounded α := peek (xs.drop i)

/-- How many elements there are before the first one without `p`. -/
def skip (p : α → Bool) : List α → Bounded Nat
  | [] => .error .read
  | x :: xs => if p x then (skip p xs).map (· + 1) else .ok 0

theorem readAt_eq {xs : List α} {i : Nat} (h : i < xs.length) (d : α) :
    readAt xs i = .ok (xs.getD i d) := by
  unfold readAt
  rw [List.drop_eq_getElem_cons h, List.getD_eq_getElem?_getD, List.getElem?_eq_getElem h]
  rfl

/-- **The loop stops at the first element without `p`**, which has to be there. -/
theorem skip_append {p : α → Bool} {xs : List α} (h : ∀ x ∈ xs, p x = true) {y : α}
    (hy : p y = false) (zs : List α) : skip p (xs ++ y :: zs) = .ok xs.length := by
  induction xs with
  | nil => exact if_neg (by rw [hy]; exact Bool.false_ne_true)
  | cons x xs ih =>
    rw [List.cons_append, skip, if_pos (h x List.mem_cons_self),
      ih fun z hz => h z (List.mem_cons_of_mem _ hz)]
    rfl

theorem skip_all {p : α → Bool} {xs : List α} (h : ∀ x ∈ xs, p x = true) :
    skip p xs = .error .read := by
  induction xs with
  | nil => rfl
  | cons x xs ih =>
    rw [skip, if_pos (h x List.mem_cons_self), ih fun z hz => h z (List.mem_cons_of_mem _ hz)]
    rfl

/-- Where the elements with `p` end. -/
theorem skip_cases (p : α → Bool) (xs : List α) :
    (∀ x ∈ xs, p x = true) ∨
      ∃ ys z zs, xs = ys ++ z :: zs ∧ (∀ y ∈ ys, p y = true) ∧ p z = false := by
  induction xs with
  | nil => exact .inl (List.forall_mem_nil _)
  | cons x xs ih =>
    cases hx : p x with
    | false => exact .inr ⟨[], x, xs, rfl, List.forall_mem_nil _, hx⟩
    | true =>
      rcases ih with hall | ⟨ys, z, zs, rfl, hys, hz⟩
      · exact .inl (List.forall_mem_cons.mpr ⟨hx, hall⟩)
      · exact .inr ⟨x :: ys, z, zs, rfl, List.forall_mem_cons.mpr ⟨hx, hys⟩, hz⟩

/-- **The loop stays inside** exactly if there is an element without `p`. -/
theorem skip_ok_iff {p : α → Bool} {xs : List α} :
    (∃ n, skip p xs = .ok n) ↔ ∃ x ∈ xs, p x = false := by
  rcases skip_cases p xs with hall | ⟨ys, z, zs, rfl, hys, hz⟩
  · rw [skip_all hall]
    refine iff_of_false ?_ ?_
    · rintro ⟨n, hn⟩
      cases hn
    · rintro ⟨x, hx, hp⟩
      rw [hall x hx] at hp
      cases hp
  · refine iff_of_true ⟨_, skip_append hys hz zs⟩ ⟨z, ?_, hz⟩
    exact List.mem_append_right _ List.mem_cons_self

/-! ## Comparing -/

variable [DecidableEq α]

/-- `memcmp`: all of the bytes may be looked at. -/
def memcmp (xs : List α) (i : Nat) (pattern : List α) : Bounded Bool :=
  if i + pattern.length ≤ xs.length then
    .ok (decide ((xs.drop i).take pattern.length = pattern))
  else .error .read

/-- A comparison that is only made if there are enough bytes. -/
def startsWith (xs : List α) (i : Nat) (pattern : List α) : Bounded Bool :=
  if xs.length ≥ i + pattern.length then memcmp xs i pattern else .ok false

theorem startsWith_eq (xs : List α) (i : Nat) {pattern : List α} (h : pattern ≠ []) :
    startsWith xs i pattern = .ok (decide (pattern <+: xs.drop i)) := by
  unfold startsWith memcmp
  by_cases hlength : i + pattern.length ≤ xs.length
  · rw [if_pos hlength, if_pos hlength]
    congr 2
    rw [List.prefix_iff_eq_take]
    exact propext eq_comm
  · rw [if_neg hlength]
    have hnot : ¬ pattern <+: xs.drop i := by
      intro hstarts
      have hle := hstarts.length_le
      have hpos := List.length_pos_iff.mpr h
      rw [List.length_drop] at hle
      omega
    rw [decide_eq_false hnot]

end Aoo.Lib
