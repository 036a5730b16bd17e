import Aoo.Lib.Run
import Mathlib.Logic.Function.Iterate

/-!
# Counted free lists

A pool that never gives memory back while it is in use keeps what is returned to it in a
free list, and makes a new element only when that list is empty. Only two numbers matter
here: how many elements are in the list and how many have been handed out.

A family of such lists, one for each kind `ι` of element, grows no more once every list
holds as many elements as will ever be in use at one time: `held_run_iff` says so in both
directions, for every order in which elements are taken and given back.
-/

namespace Aoo.Lib

/-- The elements in the list and those that have been handed out. -/
structure FreeList where
  free : Nat := 0
  inUse : Nat := 0
  deriving DecidableEq, Repr

namespace FreeList

/-- All elements. -/
def held (l : FreeList) : Nat := l.free + l.inUse

/-- A new element, which is handed out at once. -/
def grow (l : FreeList) : FreeList := { l with inUse := l.inUse + 1 }

/-- Take an element out of the list, or a new one. -/
def allocate (l : FreeList) : FreeList :=
  if l.free = 0 then l.grow else ⟨l.free - 1, l.inUse + 1⟩

/-- Give an element back. Nothing comes back if nothing has been handed out. -/
def deallocate (l : FreeList) : FreeList :=
  if l.inUse = 0 then l else ⟨l.free + 1, l.inUse - 1⟩

/-- Add new elements to the list until there are `count`. -/
def reserve (l : FreeList) (count : Nat) : FreeList :=
  (fun l => l.grow.deallocate)^[count - l.held] l

/-- Drop the elements of the list. -/
def release (l : FreeList) : FreeList := { l with free := 0 }

theorem inUse_allocate (l : FreeList) : l.allocate.inUse = l.inUse + 1 := by
  unfold allocate
  split <;> rfl

theorem held_allocate (l : FreeList) :
    l.allocate.held = if l.free = 0 then l.held + 1 else l.held := by
  unfold allocate held grow
  split
  · rfl
  · dsimp only
    omega

theorem inUse_iterate_allocate (n : Nat) (l : FreeList) :
    (allocate^[n] l).inUse = l.inUse + n := by
  induction n generalizing l with
  | zero => rfl
  | succ n ih =>
    rw [Function.iterate_succ_apply, ih, inUse_allocate]
    omega

theorem held_deallocate (l : FreeList) : l.deallocate.held = l.held := by
  unfold deallocate held
  split
  · rfl
  · dsimp only
    omega

theorem inUse_deallocate (l : FreeList) : l.deallocate.inUse = l.inUse - 1 := by
  unfold deallocate
  split
  next hzero => rw [hzero]
  next => rfl

theorem held_grow_deallocate (l : FreeList) : l.grow.deallocate.held = l.held + 1 :=
  held_deallocate l.grow

theorem held_iterate_grow (n : Nat) (l : FreeList) :
    ((fun l => l.grow.deallocate)^[n] l).held = l.held + n := by
  induction n generalizing l with
  | zero => rfl
  | succ n ih =>
    rw [Function.iterate_succ_apply, ih, held_grow_deallocate]
    omega

theorem held_reserve (l : FreeList) (count : Nat) : (l.reserve count).held = max l.held count := by
  rw [reserve, held_iterate_grow]
  omega

theorem inUse_reserve (l : FreeList) (count : Nat) : (l.reserve count).inUse = l.inUse := by
  unfold reserve
  induction count - l.held generalizing l with
  | zero => rfl
  | succ n ih =>
    rw [Function.iterate_succ_apply, ih, inUse_deallocate]
    rfl

/-! ## Families -/

variable {ι : Type} [DecidableEq ι]

/-- What is done with one list of a family. -/
inductive Action (ι : Type)
  | allocate (i : ι)
  | deallocate (i : ι)
  deriving DecidableEq, Repr

def step (p : ι → FreeList) : Action ι → ι → FreeList
  | .allocate i => Function.update p i (p i).allocate
  | .deallocate i => Function.update p i (p i).deallocate

/-- No more elements are in use than the quota says. -/
def Within (quota : ι → Nat) (p : ι → FreeList) : Prop := ∀ i, (p i).inUse ≤ quota i

/-- The quota is kept in every state of the run. -/
def KeepsWithin (quota : ι → Nat) : (ι → FreeList) → List (Action ι) → Prop :=
  StepsAll step fun p a => Within quota (step p a)

variable {quota : ι → Nat} {p : ι → FreeList}

/-- A step that keeps the quota makes no new element if the quota is held. -/
theorem held_step {a : Action ι} (hquota : ∀ i, quota i ≤ (p i).held)
    (h : Within quota (step p a)) (i : ι) : (step p a i).held = (p i).held := by
  cases a with
  | allocate j =>
    rcases eq_or_ne i j with rfl | hne
    · have hin := h i
      simp only [step, Function.update_self] at hin ⊢
      rw [inUse_allocate] at hin
      have hheld := hquota i
      rw [held_allocate, if_neg]
      -- with an empty list all elements are in use, and one more would be above the quota
      intro hfree
      unfold held at hheld
      omega
    · simp only [step, Function.update_of_ne hne]
  | deallocate j =>
    rcases eq_or_ne i j with rfl | hne
    · simp only [step, Function.update_self, held_deallocate]
    · simp only [step, Function.update_of_ne hne]

theorem held_run (hquota : ∀ i, quota i ≤ (p i).held) {as : List (Action ι)}
    (h : KeepsWithin quota p as) (i : ι) : (as.foldl step p i).held = (p i).held := by
  refine StepsAll.invariant (I := fun q => ∀ i, (q i).held = (p i).held) (fun q a hq hin i => ?_)
    (fun _ => rfl) h as (List.prefix_refl as) i
  rw [held_step (fun j => by rw [hq j]; exact hquota j) hin, hq i]

/-- Taking `n` elements of one kind. -/
theorem foldl_replicate_allocate (i : ι) (n : Nat) (p : ι → FreeList) :
    (List.replicate n (Action.allocate i)).foldl step p =
      Function.update p i (allocate^[n] (p i)) := by
  induction n generalizing p with
  | zero => simp
  | succ n ih =>
    rw [List.replicate_succ, List.foldl_cons, ih, step, Function.update_self,
      Function.update_idem, Function.iterate_succ_apply]

theorem keepsWithin_replicate (i : ι) (n : Nat) (hp : Within quota p)
    (hn : (p i).inUse + n ≤ quota i) :
    KeepsWithin quota p (List.replicate n (Action.allocate i)) := by
  induction n generalizing p with
  | zero => trivial
  | succ n ih =>
    have hi : (step p (.allocate i) i).inUse = (p i).inUse + 1 := by
      simp only [step, Function.update_self, inUse_allocate]
    have hin : Within quota (step p (.allocate i)) := by
      intro j
      rcases eq_or_ne j i with rfl | hne
      · omega
      · simp only [step, Function.update_of_ne hne]
        exact hp j
    exact ⟨hin, ih hin (by omega)⟩

/-- **No new elements.** The runs that keep the quota make none if and only if every list
holds its quota from the start. -/
theorem held_run_iff (hp : Within quota p) :
    (∀ as, KeepsWithin quota p as → ∀ i, (as.foldl step p i).held = (p i).held) ↔
      ∀ i, quota i ≤ (p i).held := by
  refine ⟨fun h i => ?_, fun hquota as has => held_run hquota has⟩
  have hin := hp i
  -- take as many elements as the quota allows
  have hrun := h _ (keepsWithin_replicate i (quota i - (p i).inUse) hp (by omega)) i
  rw [foldl_replicate_allocate, Function.update_self] at hrun
  have huse := inUse_iterate_allocate (quota i - (p i).inUse) (p i)
  unfold held at hrun ⊢
  omega

end FreeList

end Aoo.Lib
