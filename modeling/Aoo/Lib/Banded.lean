import Mathlib.Algebra.Order.Field.Basic
import Mathlib.Data.List.Nodup
import Mathlib.Tactic.Linarith

/-!
# Comparison with a tolerance band

Elements are compared by a rank first, then by a cost, and costs that differ by no
more than a band do not count: a tie-break decides. Such a comparison looks like an
order and is not one, because "within the band of each other" is not transitive. It
is an order on a list if and only if no third cost lies between two costs that are
further apart than the band while the tie-break runs against them
(`Banded.strictWeakOrderOn_iff`).

`Sorts` is what a sort promises: its result is a permutation, and it is sorted if the
comparison is a strict weak order on the elements. `sorts_insertionSorted` says that
insertion from the back keeps the promise.
-/

namespace Aoo.Lib

/-! ## Sorting by a comparison -/

section Sorting

variable {α : Type} {lt : α → α → Bool} {l : List α} {x y z : α}

/-- The comparison is a strict weak order on the elements of the list. -/
structure StrictWeakOrderOn (lt : α → α → Bool) (l : List α) : Prop where
  irrefl : ∀ x ∈ l, lt x x = false
  trans : ∀ x ∈ l, ∀ y ∈ l, ∀ z ∈ l, lt x y = true → lt y z = true → lt x z = true
  incomp_trans : ∀ x ∈ l, ∀ y ∈ l, ∀ z ∈ l, lt x y = false → lt y x = false →
    lt y z = false → lt z y = false → lt x z = false ∧ lt z x = false

theorem StrictWeakOrderOn.of_subset (h : StrictWeakOrderOn lt l) {l' : List α} (hs : l' ⊆ l) :
    StrictWeakOrderOn lt l' where
  irrefl x hx := h.irrefl x (hs hx)
  trans x hx y hy z hz := h.trans x (hs hx) y (hs hy) z (hs hz)
  incomp_trans x hx y hy z hz := h.incomp_trans x (hs hx) y (hs hy) z (hs hz)

theorem StrictWeakOrderOn.asymm (h : StrictWeakOrderOn lt l) (hx : x ∈ l) (hy : y ∈ l)
    (hxy : lt x y = true) : lt y x = false := by
  cases hyx : lt y x with
  | false => rfl
  | true =>
    have hxx := h.trans x hx y hy x hx hxy hyx
    rw [h.irrefl x hx] at hxx
    cases hxx

/-- "Not before" is transitive. -/
theorem StrictWeakOrderOn.not_lt_trans (h : StrictWeakOrderOn lt l) (hx : x ∈ l) (hy : y ∈ l)
    (hz : z ∈ l) (hxy : lt x y = false) (hyz : lt y z = false) : lt x z = false := by
  cases hxz : lt x z with
  | false => rfl
  | true =>
    cases hyx : lt y x with
    | true =>
      rw [h.trans y hy x hx z hz hyx hxz] at hyz
      cases hyz
    | false =>
      cases hzy : lt z y with
      | true =>
        rw [h.trans x hx z hz y hy hxz hzy] at hxy
        cases hxy
      | false =>
        rw [(h.incomp_trans x hx y hy z hz hxy hyx hyz hzy).1] at hxz
        cases hxz

/-- What a sort promises. -/
structure Sorts (sorted : (α → α → Bool) → List α → List α) : Prop where
  perm : ∀ lt l, (sorted lt l).Perm l
  pairwise : ∀ lt l, StrictWeakOrderOn lt l → (sorted lt l).Pairwise fun x y => lt y x = false

/-- The sorted list of elements that are never incomparable is determined by the elements. -/
theorem Sorts.eq_of_perm {sorted : (α → α → Bool) → List α → List α} (hs : Sorts sorted)
    {l l' : List α} (ho : StrictWeakOrderOn lt l)
    (htotal : ∀ x ∈ l, ∀ y ∈ l, lt x y = false → lt y x = false → x = y) (h : l'.Perm l) :
    sorted lt l' = sorted lt l := by
  refine List.Perm.eq_of_pairwise (fun x y hx hy hyx hxy => ?_)
    (hs.pairwise lt l' (ho.of_subset h.subset)) (hs.pairwise lt l ho)
    ((hs.perm lt l').trans (h.trans (hs.perm lt l).symm))
  have hxl := h.subset ((hs.perm lt l').subset hx)
  have hyl := (hs.perm lt l).subset hy
  exact htotal x hxl y hyl hxy hyx

/-- Move an element left in the sorted front part of an array, whose last element is the
head of the list here, while it is before its neighbour. -/
def insertBack (lt : α → α → Bool) (x : α) : List α → List α
  | [] => [x]
  | y :: ys => if lt x y then y :: insertBack lt x ys else x :: y :: ys

/-- Insertion sort. -/
def insertionSorted (lt : α → α → Bool) (l : List α) : List α :=
  (l.foldl (fun front x => insertBack lt x front) []).reverse

theorem insertBack_perm (lt : α → α → Bool) (x : α) (ys : List α) :
    (insertBack lt x ys).Perm (x :: ys) := by
  induction ys with
  | nil => exact .refl _
  | cons y ys ih =>
    rw [insertBack]
    split
    next => exact (ih.cons y).trans (.swap x y ys)
    next => exact .refl _

theorem pairwise_insertBack (h : StrictWeakOrderOn lt l) (hx : x ∈ l) {ys : List α}
    (hys : ys ⊆ l) (hp : ys.Pairwise fun a b => lt a b = false) :
    (insertBack lt x ys).Pairwise fun a b => lt a b = false := by
  induction ys with
  | nil => exact List.pairwise_singleton ..
  | cons y ys ih =>
    obtain ⟨hy, hrest⟩ := List.pairwise_cons.mp hp
    have hyl := hys (List.mem_cons_self ..)
    rw [insertBack]
    split
    next hxy =>
      refine List.pairwise_cons.mpr ⟨fun z hz => ?_, ih (List.subset_of_cons_subset hys) hrest⟩
      rcases List.mem_cons.mp ((insertBack_perm lt x ys).subset hz) with rfl | hz
      · exact h.asymm hx hyl hxy
      · exact hy z hz
    next hxy =>
      have hxy := Bool.eq_false_iff.mpr hxy
      refine List.pairwise_cons.mpr ⟨fun z hz => ?_, hp⟩
      rcases List.mem_cons.mp hz with rfl | hz'
      · exact hxy
      · exact h.not_lt_trans hx hyl (hys hz) hxy (hy z hz')

theorem foldl_insertBack_perm (lt : α → α → Bool) (l : List α) :
    ∀ front, (l.foldl (fun front x => insertBack lt x front) front).Perm (front ++ l) := by
  induction l with
  | nil =>
    intro front
    rw [List.append_nil]
    exact .refl _
  | cons x l ih =>
    intro front
    refine (ih (insertBack lt x front)).trans ?_
    exact ((insertBack_perm lt x front).append_right l).trans List.perm_middle.symm

/-- **Insertion sort keeps the promise.** -/
theorem sorts_insertionSorted : Sorts (insertionSorted (α := α)) where
  perm lt l := (List.reverse_perm _).trans (foldl_insertBack_perm lt l [])
  pairwise lt l h := by
    have hfold : ∀ (l' front : List α), l' ⊆ l → front ⊆ l →
        (front.Pairwise fun a b => lt a b = false) →
        (l'.foldl (fun front x => insertBack lt x front) front).Pairwise
          fun a b => lt a b = false := by
      intro l'
      induction l' with
      | nil => exact fun _ _ _ hp => hp
      | cons x l' ih =>
        intro front hl' hfront hp
        have hx := hl' (List.mem_cons_self ..)
        refine ih _ (List.subset_of_cons_subset hl') (fun y hy => ?_)
          (pairwise_insertBack h hx hfront hp)
        rcases List.mem_cons.mp ((insertBack_perm lt x front).subset hy) with rfl | hy
        · exact hx
        · exact hfront hy
    exact List.pairwise_reverse.mpr
      (hfold l [] (List.Subset.refl l) (List.nil_subset l) List.Pairwise.nil)

end Sorting

/-! ## The band -/

/-- A comparison by rank, then by cost where costs differ by more than the band, then by a
tie-break. -/
structure Banded (α ρ K τ : Type) where
  rank : α → ρ
  cost : α → K
  band : K
  tie : α → τ

namespace Banded

variable {α ρ K τ : Type} [LinearOrder ρ] [Field K] [LinearOrder K] [LinearOrder τ]
  {o : Banded α ρ K τ} {lt : α → α → Bool} {x y z : α} {l : List α}

/-- `x` comes before `y`. -/
def Before (o : Banded α ρ K τ) (x y : α) : Prop :=
  o.rank x < o.rank y ∨ o.rank x = o.rank y ∧
    if o.band < |o.cost x - o.cost y| then o.cost x < o.cost y else o.tie x < o.tie y

/-- The costs of `x` and `z` are further apart than the band, the cost of `y` is within the
band of both, and the tie-break puts `z` before `y` and `y` before `x`. -/
structure Straddles (o : Banded α ρ K τ) (x y z : α) : Prop where
  rank_left : o.rank x = o.rank y
  rank_right : o.rank y = o.rank z
  apart : o.cost x + o.band < o.cost z
  near_left : |o.cost x - o.cost y| ≤ o.band
  near_right : |o.cost y - o.cost z| ≤ o.band
  tie_right : o.tie z < o.tie y
  tie_left : o.tie y < o.tie x

theorem not_before_self (o : Banded α ρ K τ) (x : α) : ¬ o.Before x x := by
  rintro (h | ⟨-, h⟩)
  · exact lt_irrefl _ h
  · split at h <;> exact lt_irrefl _ h

theorem rank_le_of_before (h : o.Before x y) : o.rank x ≤ o.rank y := by
  rcases h with h | ⟨h, -⟩
  · exact h.le
  · exact h.le

variable [IsStrictOrderedRing K]

/-- A cost that is smaller by more than the band, or one within the band and a smaller
tie-break. -/
theorem before_iff (hband : 0 ≤ o.band) (hr : o.rank x = o.rank y) :
    o.Before x y ↔ o.cost x + o.band < o.cost y ∨
      |o.cost x - o.cost y| ≤ o.band ∧ o.tie x < o.tie y := by
  unfold Before
  rw [hr]
  simp only [lt_irrefl, false_or, true_and]
  split
  next hfar =>
    refine ⟨fun h => ?_, fun h => ?_⟩
    · rw [abs_of_neg (sub_neg.mpr h)] at hfar
      exact Or.inl (by linarith)
    · rcases h with h | ⟨h, -⟩
      · linarith
      · exact absurd hfar (not_lt.mpr h)
  next hnear =>
    have hnear := not_lt.mp hnear
    refine ⟨fun h => Or.inr ⟨hnear, h⟩, fun h => ?_⟩
    rcases h with h | ⟨-, h⟩
    · linarith [(abs_le.mp hnear).1]
    · exact h

/-- Two costs are apart, in one of two directions, or within the band of each other. -/
theorem cost_cases {α ρ K τ : Type} [Field K] [LinearOrder K] [IsStrictOrderedRing K]
    (o : Banded α ρ K τ) (x y : α) : o.cost x + o.band < o.cost y ∨ o.cost y + o.band < o.cost x ∨
      |o.cost x - o.cost y| ≤ o.band := by
  by_cases hxy : o.cost x + o.band < o.cost y
  · exact Or.inl hxy
  by_cases hyx : o.cost y + o.band < o.cost x
  · exact Or.inr (Or.inl hyx)
  · exact Or.inr (Or.inr (abs_le.mpr ⟨by linarith, by linarith⟩))

theorem before_total (hband : 0 ≤ o.band) (hne : o.tie x ≠ o.tie y) :
    o.Before x y ∨ o.Before y x := by
  rcases lt_trichotomy (o.rank x) (o.rank y) with hr | hr | hr
  · exact Or.inl (Or.inl hr)
  · rw [before_iff hband hr, before_iff hband hr.symm, abs_sub_comm (o.cost y)]
    rcases o.cost_cases x y with h | h | h
    · exact Or.inl (Or.inl h)
    · exact Or.inr (Or.inl h)
    · exact (lt_or_gt_of_ne hne).imp (fun ht => Or.inr ⟨h, ht⟩) fun ht => Or.inr ⟨h, ht⟩
  · exact Or.inr (Or.inl hr)

/-- Within one rank, two steps of the comparison make a third one if the elements do not
straddle the band in any of the orders that the ties allow. -/
theorem before_trans (hband : 0 ≤ o.band) (hxy : o.rank x = o.rank y) (hyz : o.rank y = o.rank z)
    (hinj : o.tie x = o.tie z → x = z) (hz : ¬ o.Straddles x z y) (hx : ¬ o.Straddles y x z)
    (hy : ¬ o.Straddles z y x) (h₁ : o.Before x y) (h₂ : o.Before y z) : o.Before x z := by
  rw [before_iff hband hxy] at h₁
  rw [before_iff hband hyz] at h₂
  rw [before_iff hband (hxy.trans hyz)]
  rcases h₁ with h₁ | ⟨h₁, ht₁⟩ <;> rcases h₂ with h₂ | ⟨h₂, ht₂⟩
  · exact Or.inl (by linarith)
  · obtain ⟨hlow, hhigh⟩ := abs_le.mp h₂
    rcases o.cost_cases x z with h | h | h
    · exact Or.inl h
    · linarith
    · refine Or.inr ⟨h, ?_⟩
      rcases lt_trichotomy (o.tie x) (o.tie z) with ht | ht | ht
      · exact ht
      · rw [hinj ht] at h₁
        linarith
      · exact absurd ⟨hxy.trans hyz, hyz.symm, h₁, h, abs_sub_comm (o.cost y) _ ▸ h₂, ht₂, ht⟩ hz
  · obtain ⟨hlow, hhigh⟩ := abs_le.mp h₁
    rcases o.cost_cases x z with h | h | h
    · exact Or.inl h
    · linarith
    · refine Or.inr ⟨h, ?_⟩
      rcases lt_trichotomy (o.tie x) (o.tie z) with ht | ht | ht
      · exact ht
      · rw [hinj ht] at hhigh
        linarith
      · exact absurd ⟨hxy.symm, hxy.trans hyz, h₂, abs_sub_comm (o.cost x) _ ▸ h₁, h, ht, ht₁⟩ hx
  · rcases o.cost_cases x z with h | h | h
    · exact Or.inl h
    · exact absurd ⟨hyz.symm, hxy.symm, h, abs_sub_comm (o.cost y) _ ▸ h₂,
        abs_sub_comm (o.cost x) _ ▸ h₁, ht₁, ht₂⟩ hy
    · exact Or.inr ⟨h, ht₁.trans ht₂⟩

/-- A straddle is a cycle. -/
theorem Straddles.cycle (hband : 0 ≤ o.band) (h : o.Straddles x y z) :
    o.Before x z ∧ o.Before z y ∧ o.Before y x := by
  rw [before_iff hband (h.rank_left.trans h.rank_right), before_iff hband h.rank_right.symm,
    before_iff hband h.rank_left.symm]
  exact ⟨Or.inl h.apart, Or.inr ⟨abs_sub_comm (o.cost y) _ ▸ h.near_right, h.tie_right⟩,
    Or.inr ⟨abs_sub_comm (o.cost x) _ ▸ h.near_left, h.tie_left⟩⟩

/-- `lt` decides the comparison on the elements of a list. -/
def Decides (o : Banded α ρ K τ) (lt : α → α → Bool) (l : List α) : Prop :=
  ∀ x ∈ l, ∀ y ∈ l, lt x y = true ↔ o.Before x y

theorem eq_of_not_before (h : o.Decides lt l) (hband : 0 ≤ o.band)
    (hinj : ∀ x ∈ l, ∀ y ∈ l, o.tie x = o.tie y → x = y) :
    ∀ x ∈ l, ∀ y ∈ l, lt x y = false → lt y x = false → x = y := by
  intro x hx y hy hxy hyx
  by_contra hne
  rcases before_total hband (fun ht => hne (hinj x hx y hy ht)) with hb | hb
  · exact Bool.eq_false_iff.mp hxy ((h x hx y hy).mpr hb)
  · exact Bool.eq_false_iff.mp hyx ((h y hy x hx).mpr hb)

/-- **When a comparison with a band is an order**: on elements with distinct tie-breaks it is
a strict weak order if and only if no three of them straddle the band. -/
theorem strictWeakOrderOn_iff (h : o.Decides lt l) (hband : 0 ≤ o.band)
    (hinj : ∀ x ∈ l, ∀ y ∈ l, o.tie x = o.tie y → x = y) :
    StrictWeakOrderOn lt l ↔ ∀ x ∈ l, ∀ y ∈ l, ∀ z ∈ l, ¬ o.Straddles x y z := by
  have hself : ∀ x ∈ l, lt x x = false := fun x hx =>
    Bool.eq_false_iff.mpr fun hxx => o.not_before_self x ((h x hx x hx).mp hxx)
  constructor
  · intro ho x hx y hy z hz hs
    obtain ⟨hxz, hzy, hyx⟩ := hs.cycle hband
    have hzx := ho.trans z hz y hy x hx ((h z hz y hy).mpr hzy) ((h y hy x hx).mpr hyx)
    exact Bool.eq_false_iff.mp (ho.asymm hz hx hzx) ((h x hx z hz).mpr hxz)
  · intro hno
    refine ⟨hself, fun x hx y hy z hz hxy hyz => ?_, ?_⟩
    · rw [h x hx y hy] at hxy
      rw [h y hy z hz] at hyz
      rw [h x hx z hz]
      rcases (rank_le_of_before hxy).lt_or_eq with hr | hr
      · exact Or.inl (hr.trans_le (rank_le_of_before hyz))
      rcases (rank_le_of_before hyz).lt_or_eq with hr' | hr'
      · exact Or.inl (hr ▸ hr')
      · exact before_trans hband hr hr' (hinj x hx z hz) (hno x hx z hz y hy)
          (hno y hy x hx z hz) (hno z hz y hy x hx) hxy hyz
    · intro x hx y hy z hz hxy hyx hyz hzy
      rw [eq_of_not_before h hband hinj x hx y hy hxy hyx,
        eq_of_not_before h hband hinj y hy z hz hyz hzy]
      exact ⟨hself z hz, hself z hz⟩

end Banded

end Aoo.Lib
