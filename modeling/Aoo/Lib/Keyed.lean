import Mathlib.Data.List.Nodup

/-!
# Lists with keys

A list whose elements have a key stands for a map, or for a vector that is searched for a
key: `lookup` finds the first element with a key, `adjust` changes the elements with a key,
`remove` takes the first one out. In a list with distinct keys the element found is the only one, and
these operations are what they are in a map.
-/

namespace Aoo.Lib.Keyed

variable {α κ : Type*} [DecidableEq κ]

/-- The first element with a key. -/
def lookup (key : α → κ) (k : κ) (xs : List α) : Option α := xs.find? fun x => key x = k

/-- Changes the elements with a key. -/
def adjust (key : α → κ) (k : κ) (f : α → α) (xs : List α) : List α :=
  xs.map fun x => if key x = k then f x else x

/-- Takes out the first element with a key. -/
def remove (key : α → κ) (k : κ) (xs : List α) : List α := xs.eraseP fun x => key x = k

/-- No two elements have the same key. -/
def Distinct (key : α → κ) (xs : List α) : Prop := (xs.map key).Nodup

variable {key : α → κ} {k : κ} {x y : α} {xs : List α} {f : α → α}

theorem mem_of_lookup (h : lookup key k xs = some x) : x ∈ xs := List.mem_of_find?_eq_some h

theorem key_of_lookup (h : lookup key k xs = some x) : key x = k := by
  have hp := List.find?_some h
  exact of_decide_eq_true hp

theorem lookup_eq_none : lookup key k xs = none ↔ ∀ x ∈ xs, key x ≠ k := by
  simp [lookup]

omit [DecidableEq κ] in
/-- With distinct keys there is only one element for a key. -/
theorem Distinct.eq (h : Distinct key xs) (hx : x ∈ xs) (hy : y ∈ xs) (hk : key x = key y) :
    x = y :=
  List.inj_on_of_nodup_map h hx hy hk

theorem Distinct.lookup (h : Distinct key xs) (hx : x ∈ xs) : lookup key (key x) xs = some x := by
  cases hl : Keyed.lookup key (key x) xs with
  | none => exact absurd rfl (lookup_eq_none.mp hl x hx)
  | some y => rw [h.eq (mem_of_lookup hl) hx (key_of_lookup hl)]

theorem mem_adjust :
    y ∈ adjust key k f xs ↔ (y ∈ xs ∧ key y ≠ k) ∨ ∃ x ∈ xs, key x = k ∧ f x = y := by
  unfold adjust
  rw [List.mem_map]
  constructor
  · intro ⟨x, hx, hy⟩
    split at hy
    next hk => exact .inr ⟨x, hx, hk, hy⟩
    next hk => exact .inl ⟨hy ▸ hx, hy ▸ hk⟩
  · intro h
    rcases h with ⟨hy, hk⟩ | ⟨x, hx, hk, hy⟩
    · exact ⟨y, hy, if_neg hk⟩
    · exact ⟨x, hx, by rw [if_pos hk, hy]⟩

/-- Values that do not depend on the change stay. -/
theorem map_adjust {β : Type*} {g : α → β} (hg : ∀ x ∈ xs, key x = k → g (f x) = g x) :
    (adjust key k f xs).map g = xs.map g := by
  unfold adjust
  rw [List.map_map]
  refine List.map_congr_left fun x hx => ?_
  simp only [Function.comp]
  split
  next hk => exact hg x hx hk
  next => rfl

/-- The element with a key after a change. -/
theorem adjust_eq_self (h : ∀ x ∈ xs, key x = k → f x = x) : adjust key k f xs = xs := by
  refine (List.map_congr_left fun x hx => ?_).trans (List.map_id xs)
  split
  next hk => exact h x hx hk
  next => rfl

theorem lookup_adjust (hf : ∀ x ∈ xs, key x = k → key (f x) = key x) (k' : κ) :
    lookup key k' (adjust key k f xs) =
      if k' = k then (lookup key k xs).map f else lookup key k' xs := by
  unfold adjust lookup
  induction xs with
  | nil => simp
  | cons x xs ih =>
    have hrest := ih fun y hy => hf y (List.mem_cons_of_mem _ hy)
    have hx := hf x (List.mem_cons_self ..)
    rw [List.map_cons, List.find?_cons, List.find?_cons, List.find?_cons, hrest]
    by_cases hk : key x = k
    · by_cases hk' : k' = k
      · simp [hk, hx hk, hk']
      · have hne : ¬ k = k' := fun h => hk' h.symm
        simp [hk, hx hk, hk', hne]
    · by_cases hk' : k' = k
      · simp [hk, hk']
      · simp [hk, hk']

/-- What is found is what is removed. -/
theorem perm_remove (h : lookup key k xs = some x) : (x :: remove key k xs).Perm xs := by
  obtain ⟨hx, as, bs, rfl, has⟩ := List.find?_eq_some_iff_append.mp h
  have has' : ∀ a ∈ as, ¬ decide (key a = k) = true := fun a ha => by simpa using has a ha
  have hbs : (x :: bs).eraseP (fun x => key x = k) = bs := List.eraseP_cons_of_pos hx
  rw [remove, List.eraseP_append_right _ has', hbs]
  exact List.perm_middle.symm

theorem map_remove (xs : List α) (k : κ) : (remove key k xs).map key = (xs.map key).erase k := by
  rw [remove, List.erase_eq_eraseP', List.eraseP_map]
  rfl

theorem mem_of_mem_remove (h : y ∈ remove key k xs) : y ∈ xs := List.mem_of_mem_eraseP h

theorem Distinct.mem_remove (h : Distinct key xs) :
    y ∈ remove key k xs ↔ y ∈ xs ∧ key y ≠ k := by
  unfold remove
  induction xs with
  | nil => simp
  | cons x xs ih =>
    obtain ⟨hfresh, hrest⟩ := List.nodup_cons.mp h
    by_cases hx : key x = k
    · rw [List.eraseP_cons_of_pos (by simpa using hx)]
      constructor
      · intro hy
        refine ⟨List.mem_cons_of_mem _ hy, fun hk => hfresh ?_⟩
        rw [hx, ← hk]
        exact List.mem_map_of_mem hy
      · intro ⟨hy, hk⟩
        rcases List.mem_cons.mp hy with rfl | hy
        · exact absurd hx hk
        · exact hy
    · rw [List.eraseP_cons_of_neg (by simpa using hx), List.mem_cons, List.mem_cons, ih hrest]
      constructor
      · intro hor
        rcases hor with rfl | ⟨hy, hk⟩
        · exact ⟨.inl rfl, hx⟩
        · exact ⟨.inr hy, hk⟩
      · intro ⟨hor, hk⟩
        rcases hor with rfl | hy
        · exact .inl rfl
        · exact .inr ⟨hy, hk⟩

theorem Distinct.remove (h : Distinct key xs) : Distinct key (remove key k xs) :=
  List.Nodup.sublist (List.Sublist.map key List.eraseP_sublist) h

/-- After the removal the key is gone, and the other elements are still found. -/
theorem Distinct.lookup_remove (h : Distinct key xs) (k' : κ) :
    Keyed.lookup key k' (Keyed.remove key k xs) =
      if k' = k then none else Keyed.lookup key k' xs := by
  split
  next heq => exact lookup_eq_none.mpr fun x hx => heq ▸ (h.mem_remove.mp hx).2
  next hne =>
    cases hl : Keyed.lookup key k' xs with
    | none =>
      exact lookup_eq_none.mpr fun x hx => lookup_eq_none.mp hl x (mem_of_mem_remove hx)
    | some x =>
      have hk := key_of_lookup hl
      rw [← hk]
      exact h.remove.lookup (h.mem_remove.mpr ⟨mem_of_lookup hl, hk ▸ hne⟩)

/-- The removal of a key does not hide another. -/
theorem lookup_remove_of_ne {k' : κ} (hne : k' ≠ k) :
    lookup key k' (remove key k xs) = lookup key k' xs := by
  unfold lookup remove
  induction xs with
  | nil => rfl
  | cons x xs ih =>
    by_cases hx : key x = k
    · have hx' : ¬ key x = k' := fun h => hne (h.symm.trans hx)
      simp [hx, hne.symm]
    · rw [List.eraseP_cons_of_neg (by simpa using hx), List.find?_cons, List.find?_cons, ih]

theorem remove_append_of_ne (hne : key x ≠ k) : remove key k (xs ++ [x]) = remove key k xs ++ [x] := by
  unfold remove
  induction xs with
  | nil => simp [hne]
  | cons y xs ih =>
    by_cases hy : key y = k
    · simp [hy]
    · simp [hy, ih]

omit [DecidableEq κ] in
theorem Distinct.append (h : Distinct key xs) (hx : ∀ y ∈ xs, key y ≠ key x) :
    Distinct key (xs ++ [x]) := by
  rw [Distinct, List.map_append]
  refine List.Nodup.append h (List.nodup_singleton _) fun k hk hk' => ?_
  obtain ⟨y, hy, rfl⟩ := List.mem_map.mp hk
  exact hx y hy (List.mem_singleton.mp hk')

/-- The element with a key in a longer list. -/
theorem lookup_append (hx : ∀ y ∈ xs, key y ≠ key x) (k' : κ) :
    lookup key k' (xs ++ [x]) = if k' = key x then some x else lookup key k' xs := by
  unfold lookup
  rw [List.find?_append]
  split
  next heq =>
    have hnone : xs.find? (fun y => decide (key y = k')) = none :=
      lookup_eq_none.mpr fun y hy => heq ▸ hx y hy
    rw [hnone]
    simp [heq]
  next hne =>
    have hne' : ¬ key x = k' := fun h => hne h.symm
    simp [hne']

/-- One element at most says something, and all elements that do would say the same. -/
theorem flatMap_single {β : Type*} {p : α → Prop} [DecidablePred p] {xs : List α}
    (hn : xs.Nodup) (hp : ∀ x ∈ xs, ∀ y ∈ xs, p x → p y → x = y) (b : β) :
    (xs.flatMap fun x => if p x then [b] else []) = if ∃ x ∈ xs, p x then [b] else [] := by
  induction xs with
  | nil => simp
  | cons x xs ih =>
    obtain ⟨hfresh, hrest⟩ := List.nodup_cons.mp hn
    rw [List.flatMap_cons, ih hrest fun y hy z hz => hp y (List.mem_cons_of_mem _ hy) z
      (List.mem_cons_of_mem _ hz)]
    by_cases hx : p x
    · have hnone : ¬ ∃ y ∈ xs, p y := by
        intro ⟨y, hy, hpy⟩
        have heq := hp x (List.mem_cons_self ..) y (List.mem_cons_of_mem _ hy) hx hpy
        exact hfresh (heq ▸ hy)
      rw [if_pos hx, if_neg hnone, if_pos ⟨x, List.mem_cons_self .., hx⟩, List.append_nil]
    · simp [hx]

end Aoo.Lib.Keyed
