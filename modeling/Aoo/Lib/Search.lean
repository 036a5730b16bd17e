import Mathlib.Data.List.Sort

/-!
# Binary search

`lowerBound p count first count` is `std::lower_bound` over the positions
`first, …, first + count - 1`: it halves the range and keeps the half in front of
the middle unless `p` holds there. On a range that is partitioned (`p` holds up
to some position and nowhere behind it) the result is that position. Two
ascending lists are equal if they have the same elements.
-/

namespace Aoo.Lib

/-- The loop of `std::lower_bound`; `fuel` is at least the length of the range. -/
def lowerBound (p : Nat → Bool) : (fuel first count : Nat) → Nat
  | 0, first, _ => first
  | fuel + 1, first, count =>
    if count = 0 then first
    else if p (first + count / 2) then
      lowerBound p fuel (first + count / 2 + 1) (count - (count / 2 + 1))
    else lowerBound p fuel first (count / 2)

/-- The result stays in the range. -/
theorem lowerBound_mem (p : Nat → Bool) {fuel first count : Nat} (hf : count ≤ fuel) :
    first ≤ lowerBound p fuel first count ∧
      lowerBound p fuel first count ≤ first + count := by
  induction fuel generalizing first count with
  | zero =>
    unfold lowerBound
    omega
  | succ fuel ih =>
    unfold lowerBound
    split
    next => omega
    next hne =>
      split
      next =>
        have := @ih (first + count / 2 + 1) (count - (count / 2 + 1)) (by omega)
        omega
      next =>
        have := @ih first (count / 2) (by omega)
        omega

/-- **The result is the point of partition.** -/
theorem lowerBound_eq (p : Nat → Bool) {fuel first count k : Nat} (hf : count ≤ fuel)
    (hk : first ≤ k ∧ k ≤ first + count)
    (hp : ∀ i, first ≤ i → i < first + count → (p i = true ↔ i < k)) :
    lowerBound p fuel first count = k := by
  induction fuel generalizing first count with
  | zero =>
    unfold lowerBound
    omega
  | succ fuel ih =>
    unfold lowerBound
    split
    next => omega
    next hne =>
      have hmid := hp (first + count / 2) (by omega) (by omega)
      split
      next hc =>
        have hlt := hmid.mp hc
        exact ih (by omega) (by omega) (fun i h1 h2 => hp i (by omega) (by omega))
      next hc =>
        have hge : ¬ first + count / 2 < k := fun h => hc (hmid.mpr h)
        exact ih (by omega) (by omega) (fun i h1 h2 => hp i (by omega) (by omega))

/-- If `p` holds in front of `k`, the result is not in front of `k`. -/
theorem lowerBound_ge (p : Nat → Bool) :
    ∀ (fuel : Nat) {first count k : Nat}, count ≤ fuel → k ≤ first + count →
      (∀ i, first ≤ i → i < k → p i = true) → k ≤ lowerBound p fuel first count := by
  intro fuel
  induction fuel with
  | zero =>
    intro first count k hf hk _
    unfold lowerBound
    omega
  | succ fuel ih =>
    intro first count k hf hk hp
    unfold lowerBound
    split
    next => omega
    next hne =>
      split
      next => exact ih (by omega) (by omega) (fun i h1 h2 => hp i (by omega) h2)
      next hc =>
        have hmid : k ≤ first + count / 2 := by
          by_contra hlt
          exact hc (hp _ (by omega) (by omega))
        exact ih (by omega) hmid hp

/-! ## What the search looks at -/

/-- The positions at which `lowerBound` tests `p`. -/
def probes (p : Nat → Bool) : (fuel first count : Nat) → List Nat
  | 0, _, _ => []
  | fuel + 1, first, count =>
    if count = 0 then []
    else (first + count / 2) ::
      if p (first + count / 2) then
        probes p fuel (first + count / 2 + 1) (count - (count / 2 + 1))
      else probes p fuel first (count / 2)

/-- The search does not look outside its range. -/
theorem mem_probes (p : Nat → Bool) :
    ∀ (fuel : Nat) {first count i : Nat}, i ∈ probes p fuel first count →
      first ≤ i ∧ i < first + count := by
  intro fuel
  induction fuel with
  | zero =>
    intro first count i h
    cases h
  | succ fuel ih =>
    intro first count i h
    rw [probes] at h
    split at h
    next => cases h
    next hne =>
      rcases List.mem_cons.mp h with rfl | h
      · omega
      · split at h
        · have := ih h
          omega
        · have := ih h
          omega

theorem le_lowerBound (p : Nat → Bool) :
    ∀ (fuel first count : Nat), first ≤ lowerBound p fuel first count := by
  intro fuel
  induction fuel with
  | zero =>
    intro first count
    exact Nat.le_refl first
  | succ fuel ih =>
    intro first count
    rw [lowerBound]
    split
    · exact Nat.le_refl first
    · split
      · exact Nat.le_trans (by omega) (ih _ _)
      · exact ih _ _

/-- The search has looked at the position in front of its result. -/
theorem lowerBound_probed (p : Nat → Bool) :
    ∀ (fuel : Nat) {first count : Nat}, first < lowerBound p fuel first count →
      lowerBound p fuel first count - 1 ∈ probes p fuel first count := by
  intro fuel
  induction fuel with
  | zero =>
    intro first count h
    exact absurd h (Nat.lt_irrefl first)
  | succ fuel ih =>
    intro first count h
    rw [lowerBound] at h ⊢
    rw [probes]
    split at h
    next => exact absurd h (Nat.lt_irrefl first)
    next hne =>
      rw [if_neg hne, if_neg hne]
      split at h
      next hp =>
        rw [if_pos hp, if_pos hp]
        by_cases hnext : first + count / 2 + 1 <
            lowerBound p fuel (first + count / 2 + 1) (count - (count / 2 + 1))
        · exact List.mem_cons_of_mem _ (ih hnext)
        -- the middle itself is in front of the result
        · have hge := le_lowerBound p fuel (first + count / 2 + 1) (count - (count / 2 + 1))
          have heq : lowerBound p fuel (first + count / 2 + 1) (count - (count / 2 + 1)) - 1 =
              first + count / 2 := by
            omega
          rw [heq]
          exact List.mem_cons_self ..
      next hp =>
        rw [if_neg hp, if_neg hp]
        exact List.mem_cons_of_mem _ (ih h)

/-! ## The first matches -/

/-- An element is one of the first `n` matches if it matches and less than `n` of the elements
in front of it do. -/
theorem mem_take_filter {α : Type} {p : α → Bool} {l₁ l₂ : List α} {x : α} (hx : x ∉ l₁) (n : Nat) :
    x ∈ ((l₁ ++ x :: l₂).filter p).take n ↔ p x = true ∧ l₁.countP p < n := by
  have hfront : x ∉ l₁.filter p := fun hc => hx (List.mem_of_mem_filter hc)
  rw [List.filter_append, List.filter_cons, List.countP_eq_length_filter]
  by_cases hp : p x = true
  · rw [if_pos hp, List.take_append, List.mem_append]
    refine ⟨?_, ?_⟩
    · rintro (hc | hc)
      · exact absurd (List.mem_of_mem_take hc) hfront
      · refine ⟨hp, ?_⟩
        by_contra hge
        rw [Nat.sub_eq_zero_of_le (Nat.not_lt.mp hge), List.take_zero] at hc
        exact List.not_mem_nil hc
    · rintro ⟨-, hlt⟩
      obtain ⟨k, hk⟩ := Nat.exists_eq_succ_of_ne_zero (Nat.sub_ne_zero_of_lt hlt)
      rw [hk, List.take_succ_cons]
      exact Or.inr (List.mem_cons_self ..)
  · rw [if_neg hp]
    refine iff_of_false ?_ fun hc => hp hc.1
    intro hc
    rcases List.mem_append.mp (List.mem_of_mem_take hc) with hc | hc
    · exact hfront hc
    · exact hp (List.mem_filter.mp hc).2

/-! ## Ascending lists -/

/-- Ascending lists with the same elements are equal. -/
theorem eq_of_ascending {α : Type} {r : α → α → Prop} (hr : ∀ a b, r a b → ¬ r b a)
    {l₁ l₂ : List α} (h₁ : l₁.Pairwise r) (h₂ : l₂.Pairwise r) (h : ∀ a, a ∈ l₁ ↔ a ∈ l₂) :
    l₁ = l₂ := by
  have hne : ∀ a b, r a b → a ≠ b := fun a b hab heq => by
    rw [heq] at hab
    exact hr b b hab hab
  have hperm : l₁.Perm l₂ := (List.perm_ext_iff_of_nodup (h₁.imp fun hab => hne _ _ hab)
    (h₂.imp fun hab => hne _ _ hab)).mpr h
  exact hperm.eq_of_pairwise (fun a b _ _ hab hba => absurd hba (hr a b hab)) h₁ h₂

end Aoo.Lib
