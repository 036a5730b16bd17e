import Mathlib.Algebra.Ring.Nat
import Mathlib.Data.List.Pairwise
import Mathlib.Data.List.Perm.Basic
import Mathlib.Logic.Function.Basic

/-!
# Blocks of an arena

Two things that an allocator needs. `Tiles n l` says that the spans `l` cut the first `n` bytes of
an arena into pieces; a span can be added at the end or be cut further, and the order of the list
does not matter. `Chain next last h l` says that the blocks `l` are linked from `h` on, where each
block holds the next one and `last` is the end.
-/

namespace Aoo.Lib

/-! ## Tilings -/

/-- The bytes from `start` to `start + length`. -/
structure Span where
  start : Nat
  length : Nat

/-- Two spans without common bytes. -/
def Span.Apart (a b : Span) : Prop :=
  a.start + a.length ≤ b.start ∨ b.start + b.length ≤ a.start

theorem Span.Apart.symm {a b : Span} (h : a.Apart b) : b.Apart a := Or.symm h

/-- The first `n` bytes are cut into the given spans. -/
structure Tiles (n : Nat) (l : List Span) : Prop where
  inside : ∀ a ∈ l, a.start + a.length ≤ n
  apart : l.Pairwise Span.Apart
  covered : ∀ x < n, ∃ a ∈ l, a.start ≤ x ∧ x < a.start + a.length

variable {n : Nat} {l l' : List Span}

theorem tiles_nil : Tiles 0 [] where
  inside := fun _ h => absurd h List.not_mem_nil
  apart := List.Pairwise.nil
  covered := fun _ h => absurd h (Nat.not_lt_zero _)

theorem Tiles.perm (h : Tiles n l) (hp : l.Perm l') : Tiles n l' where
  inside := fun a ha => h.inside a (hp.mem_iff.mpr ha)
  apart := (hp.pairwise_iff Span.Apart.symm).mp h.apart
  covered := fun x hx => by
    obtain ⟨a, ha, hmem⟩ := h.covered x hx
    exact ⟨a, hp.mem_iff.mp ha, hmem⟩

/-- A new span at the end. -/
theorem Tiles.extend (h : Tiles n l) (k : Nat) : Tiles (n + k) (⟨n, k⟩ :: l) where
  inside := by
    intro a ha
    rcases List.mem_cons.mp ha with rfl | ha
    · exact Nat.le_refl _
    · exact Nat.le_trans (h.inside a ha) (Nat.le_add_right n k)
  apart := List.pairwise_cons.mpr ⟨fun a ha => Or.inr (h.inside a ha), h.apart⟩
  covered := by
    intro x hx
    by_cases hn : x < n
    · obtain ⟨a, ha, hmem⟩ := h.covered x hn
      exact ⟨a, List.mem_cons_of_mem _ ha, hmem⟩
    · exact ⟨⟨n, k⟩, List.mem_cons_self, Nat.le_of_not_lt hn, hx⟩

/-- A span is cut in two. -/
theorem Tiles.cut {o j k : Nat} (h : Tiles n (⟨o, j + k⟩ :: l)) :
    Tiles n (⟨o, j⟩ :: ⟨o + j, k⟩ :: l) := by
  have hinside : o + (j + k) ≤ n := h.inside _ List.mem_cons_self
  obtain ⟨hfirst, hrest⟩ := List.pairwise_cons.mp h.apart
  refine ⟨?_, ?_, ?_⟩
  · intro a ha
    rcases List.mem_cons.mp ha with rfl | ha
    · show o + j ≤ n
      omega
    rcases List.mem_cons.mp ha with rfl | ha
    · show o + j + k ≤ n
      omega
    · exact h.inside a (List.mem_cons_of_mem _ ha)
  · refine List.pairwise_cons.mpr ⟨?_, List.pairwise_cons.mpr ⟨?_, hrest⟩⟩
    · intro a ha
      rcases List.mem_cons.mp ha with rfl | ha
      · exact Or.inl (Nat.le_refl _)
      · have happart := hfirst a ha
        unfold Span.Apart at happart ⊢
        simp only [] at happart ⊢
        omega
    · intro a ha
      have happart := hfirst a ha
      unfold Span.Apart at happart ⊢
      simp only [] at happart ⊢
      omega
  · intro x hx
    obtain ⟨a, ha, hlow, hhigh⟩ := h.covered x hx
    rcases List.mem_cons.mp ha with rfl | ha
    · by_cases hj : x < o + j
      · exact ⟨⟨o, j⟩, List.mem_cons_self, hlow, hj⟩
      · refine ⟨⟨o + j, k⟩, List.mem_cons_of_mem _ List.mem_cons_self, Nat.le_of_not_lt hj, ?_⟩
        simp only [] at hhigh ⊢
        omega
    · exact ⟨a, List.mem_cons_of_mem _ (List.mem_cons_of_mem _ ha), hlow, hhigh⟩

/-- Spans of the given lengths one after the other. -/
def consecutive : Nat → List Nat → List Span
  | _, [] => []
  | o, k :: ks => ⟨o, k⟩ :: consecutive (o + k) ks

/-- A span is cut into many. -/
theorem Tiles.cuts {o j : Nat} {ks : List Nat} (h : Tiles n (⟨o, j + ks.sum⟩ :: l)) :
    Tiles n (⟨o, j⟩ :: (consecutive (o + j) ks ++ l)) := by
  induction ks generalizing o j l with
  | nil => exact h
  | cons k ks ih =>
    rw [List.sum_cons] at h
    -- The rest is cut with the first two pieces already off.
    have hrest := ih (h.cut.perm (List.Perm.swap _ _ _))
    refine hrest.perm ?_
    show (⟨o + j, k⟩ :: (consecutive (o + j + k) ks ++ ⟨o, j⟩ :: l)).Perm
      (⟨o, j⟩ :: ⟨o + j, k⟩ :: (consecutive (o + j + k) ks ++ l))
    exact (List.perm_middle.cons _).trans (List.Perm.swap _ _ _)

/-! ## Linked blocks -/

/-- The blocks are linked from `h` to `last`. -/
def Chain (next : Nat → Nat) (last : Nat) : Nat → List Nat → Prop
  | h, [] => h = last
  | h, o :: os => h = o ∧ o ≠ last ∧ Chain next last (next o) os

variable {next next' : Nat → Nat} {last h : Nat} {os : List Nat}

/-- Only what the blocks themselves hold matters. -/
theorem Chain.congr (hc : Chain next last h os) (hsame : ∀ o ∈ os, next' o = next o) :
    Chain next' last h os := by
  induction os generalizing h with
  | nil => exact hc
  | cons o os ih =>
    refine ⟨hc.1, hc.2.1, ?_⟩
    rw [hsame o List.mem_cons_self]
    exact ih hc.2.2 fun o' ho' => hsame o' (List.mem_cons_of_mem _ ho')

/-- The first block, or the end, is not beyond the end if no block is. -/
theorem Chain.head_le (hc : Chain next last h os) (hlt : ∀ o ∈ os, o < last) : h ≤ last := by
  cases os with
  | nil => exact Nat.le_of_eq hc
  | cons o os => exact hc.1 ▸ Nat.le_of_lt (hlt o List.mem_cons_self)

/-- A block that is not linked yet becomes the first. -/
theorem Chain.push (hc : Chain next last h os) {o : Nat} (hlast : o ≠ last) (ho : o ∉ os) :
    Chain (Function.update next o h) last o (o :: os) := by
  refine ⟨rfl, hlast, ?_⟩
  rw [Function.update_self]
  refine hc.congr fun o' ho' => Function.update_of_ne ?_ _ _
  intro heq
  exact ho (heq ▸ ho')

end Aoo.Lib
