import Mathlib.Data.List.Nodup
import Mathlib.Logic.Function.Basic

/-!
# Linked lists

A linked list is a function from nodes to the next node, and a first node. `Linked next p as` says
that the list from `p` on goes through the nodes `as`, and ends. What an assignment does to
a list depends on where the node is: outside of the list nothing changes, and the
two assignments of an insertion put the new node behind an old one. `Hooked` is a list whose last
node already points to another list, or still to what it pointed to before.

`walk` looks for the place of a new node, from a first node on; `insertBehind` is the same for the
list of the nodes (`walk_insert`).
-/

namespace Aoo.Lib

variable {α : Type}

/-- The list from `p` on goes through `as`. -/
def Linked (next : α → Option α) : Option α → List α → Prop
  | p, [] => p = none
  | p, a :: as => p = some a ∧ Linked next (next a) as

/-- The nodes of a list. -/
def nodes (next : α → Option α) : (fuel : Nat) → Option α → List α
  | 0, _ => []
  | _ + 1, none => []
  | fuel + 1, some a => a :: nodes next fuel (next a)

theorem nodes_eq {next : α → Option α} :
    ∀ (as : List α) {p : Option α} {fuel : Nat}, Linked next p as → as.length ≤ fuel →
      nodes next fuel p = as := by
  intro as
  induction as with
  | nil =>
    intro p fuel h _
    rw [show p = none from h]
    cases fuel with
    | zero => rfl
    | succ fuel => rfl
  | cons a as ih =>
    intro p fuel h hfuel
    obtain ⟨rfl, hrest⟩ := h
    cases fuel with
    | zero => exact absurd hfuel (Nat.not_succ_le_zero _)
    | succ fuel => rw [nodes, ih hrest (Nat.le_of_succ_le_succ hfuel)]

/-- Only the nodes of the list matter. -/
theorem Linked.congr {next next' : α → Option α} :
    ∀ {as : List α} {p : Option α}, (∀ a ∈ as, next' a = next a) → Linked next p as →
      Linked next' p as := by
  intro as
  induction as with
  | nil =>
    intro p _ h
    exact h
  | cons a as ih =>
    intro p hsame h
    obtain ⟨hp, hrest⟩ := h
    refine ⟨hp, ?_⟩
    rw [hsame a (List.mem_cons_self ..)]
    exact ih (fun b hb => hsame b (List.mem_cons_of_mem _ hb)) hrest

/-- A list that begins with a node has it. -/
theorem Linked.first_mem {next : α → Option α} {a : α} {as : List α}
    (h : Linked next (some a) as) : a ∈ as := by
  cases as with
  | nil => cases h
  | cons b as =>
    cases h.1
    exact List.mem_cons_self ..

/-- The list behind one of its nodes. -/
theorem Linked.behind {next : α → Option α} {a : α} {bs : List α} :
    ∀ (as : List α) {p : Option α}, Linked next p (as ++ a :: bs) → Linked next (next a) bs := by
  intro as
  induction as with
  | nil =>
    intro p h
    exact h.2
  | cons b as ih =>
    intro p h
    exact ih h.2

theorem Linked.unique {next : α → Option α} :
    ∀ {as bs : List α} {p : Option α}, Linked next p as → Linked next p bs → as = bs := by
  intro as
  induction as with
  | nil =>
    intro bs p has hbs
    cases bs with
    | nil => rfl
    | cons b bs => exact absurd (hbs.1.symm.trans has) (Option.some_ne_none b)
  | cons a as ih =>
    intro bs p has hbs
    cases bs with
    | nil => exact absurd (has.1.symm.trans hbs) (Option.some_ne_none a)
    | cons b bs =>
      obtain rfl : a = b := Option.some.inj (has.1.symm.trans hbs.1)
      rw [ih has.2 hbs.2]

/-- A list does not leave its nodes. -/
theorem Linked.next_mem {next : α → Option α} {a b : α} :
    ∀ {as : List α} {p : Option α}, Linked next p as → a ∈ as → next a = some b → b ∈ as := by
  intro as
  induction as with
  | nil =>
    intro p _ ha
    cases ha
  | cons c as ih =>
    intro p h ha hab
    obtain ⟨-, hrest⟩ := h
    rcases List.mem_cons.mp ha with rfl | ha
    · cases as with
      | nil => exact absurd (hab.symm.trans hrest) (Option.some_ne_none b)
      | cons d as =>
        obtain rfl : b = d := Option.some.inj (hab.symm.trans hrest.1)
        exact List.mem_cons_of_mem _ (List.mem_cons_self ..)
    · exact List.mem_cons_of_mem _ (ih hrest ha hab)

/-- The node without a next one is the last. -/
theorem Linked.last {next : α → Option α} {a : α} :
    ∀ {as : List α} {p : Option α}, Linked next p as → a ∈ as → next a = none →
      ∃ bs, as = bs ++ [a] := by
  intro as
  induction as with
  | nil =>
    intro p _ ha
    cases ha
  | cons c as ih =>
    intro p h ha hend
    obtain ⟨-, hrest⟩ := h
    rcases List.mem_cons.mp ha with rfl | ha
    · cases as with
      | nil => exact ⟨[], rfl⟩
      | cons d as => exact absurd (hrest.1.symm.trans hend) (Option.some_ne_none d)
    · obtain ⟨bs, rfl⟩ := ih hrest ha hend
      exact ⟨c :: bs, rfl⟩

/-! ## The place of a node -/

/-- The loop that goes on while the next node belongs in front. -/
def walk (next : α → Option α) (before : α → Bool) : (fuel : Nat) → α → α
  | 0, a => a
  | fuel + 1, a =>
    match next a with
    | none => a
    | some b => if before b then walk next before fuel b else a

/-- `b` behind the nodes that belong in front of it. -/
def insertBehind (before : α → Bool) (b : α) : List α → List α
  | [] => [b]
  | c :: cs => if before c then c :: insertBehind before b cs else b :: c :: cs

/-- The loop ends at the node behind which the new one belongs. -/
theorem walk_insert {next : α → Option α} (before : α → Bool) (b : α) :
    ∀ (cs : List α) {a : α} {fuel : Nat}, Linked next (next a) cs → cs.length ≤ fuel →
      ∃ pre post, a :: cs = pre ++ walk next before fuel a :: post ∧
        a :: insertBehind before b cs = pre ++ walk next before fuel a :: b :: post := by
  intro cs
  induction cs with
  | nil =>
    intro a fuel h _
    refine ⟨[], [], ?_⟩
    have hwalk : walk next before fuel a = a := by
      cases fuel with
      | zero => rfl
      | succ fuel => rw [walk, show next a = none from h]
    rw [hwalk]
    exact ⟨rfl, rfl⟩
  | cons c cs ih =>
    intro a fuel h hfuel
    obtain ⟨hnext, hrest⟩ := h
    cases fuel with
    | zero => exact absurd hfuel (Nat.not_succ_le_zero _)
    | succ fuel =>
      rw [walk, hnext, insertBehind]
      dsimp only
      split
      next hbefore =>
        obtain ⟨pre, post, hold, hnew⟩ := ih hrest (Nat.le_of_succ_le_succ hfuel)
        exact ⟨a :: pre, post, congrArg (a :: ·) hold, congrArg (a :: ·) hnew⟩
      next => exact ⟨[], c :: cs, rfl, rfl⟩

theorem perm_insertBehind (before : α → Bool) (b : α) :
    ∀ cs : List α, (insertBehind before b cs).Perm (b :: cs) := by
  intro cs
  induction cs with
  | nil => exact .refl _
  | cons c cs ih =>
    rw [insertBehind]
    split
    · exact (ih.cons c).trans (.swap b c cs)
    · exact .refl _

/-! ## Assignments -/

variable [DecidableEq α]

/-- A node in front of the list. -/
theorem Linked.prepend {next : α → Option α} {p : Option α} {as : List α} {b : α}
    (h : Linked next p as) (hb : b ∉ as) : Linked (Function.update next b p) (some b) (b :: as) := by
  refine ⟨rfl, ?_⟩
  rw [Function.update_self]
  refine h.congr fun a ha => Function.update_of_ne ?_ ..
  intro hc
  exact hb (hc ▸ ha)

/-- A node behind a node of the list. -/
theorem Linked.insert {next : α → Option α} {a b : α} {bs : List α} :
    ∀ (as : List α) {p : Option α}, Linked next p (as ++ a :: bs) → (as ++ a :: bs).Nodup →
      b ∉ as ++ a :: bs →
      Linked (Function.update (Function.update next b (next a)) a (some b)) p
        (as ++ a :: b :: bs) := by
  intro as
  induction as with
  | nil =>
    intro p h hnodup hb
    obtain ⟨hp, hrest⟩ := h
    have hab : b ≠ a := fun hc => hb (hc ▸ List.mem_cons_self ..)
    refine ⟨hp, ?_⟩
    rw [Function.update_self]
    refine ⟨rfl, ?_⟩
    rw [Function.update_of_ne hab, Function.update_self]
    refine hrest.congr fun c hc => ?_
    have hca : c ≠ a := fun heq => (List.nodup_cons.mp hnodup).1 (heq ▸ hc)
    have hcb : c ≠ b := fun heq => hb (heq ▸ List.mem_cons_of_mem _ hc)
    rw [Function.update_of_ne hca, Function.update_of_ne hcb]
  | cons c as ih =>
    intro p h hnodup hb
    obtain ⟨hp, hrest⟩ := h
    obtain ⟨hc, hnodup'⟩ := List.nodup_cons.mp hnodup
    have hca : c ≠ a := fun heq => hc (heq ▸ List.mem_append_right _ (List.mem_cons_self ..))
    have hcb : c ≠ b := fun heq => hb (heq ▸ List.mem_cons_self ..)
    refine ⟨hp, ?_⟩
    rw [Function.update_of_ne hca, Function.update_of_ne hcb]
    exact ih hrest hnodup' fun hmem => hb (List.mem_cons_of_mem _ hmem)

/-- An assignment to a node that is not in the list. -/
theorem Linked.outside {next : α → Option α} {p q : Option α} {as : List α} {b : α}
    (h : Linked next p as) (hb : b ∉ as) : Linked (Function.update next b q) p as := by
  refine h.congr fun a ha => Function.update_of_ne ?_ ..
  intro hc
  exact hb (hc ▸ ha)

/-- A node is taken out behind another one. -/
theorem Linked.unlink {next : α → Option α} {a b : α} {bs : List α} :
    ∀ (as : List α) {p : Option α}, Linked next p (as ++ a :: b :: bs) →
      (as ++ a :: b :: bs).Nodup → Linked (Function.update next a (next b)) p (as ++ a :: bs) := by
  intro as
  induction as with
  | nil =>
    intro p h hnodup
    obtain ⟨hp, -, hrest⟩ := h
    refine ⟨hp, ?_⟩
    rw [Function.update_self]
    refine hrest.outside fun hc => ?_
    exact (List.nodup_cons.mp hnodup).1 (List.mem_cons_of_mem _ hc)
  | cons c as ih =>
    intro p h hnodup
    obtain ⟨hp, hrest⟩ := h
    obtain ⟨hc, hnodup'⟩ := List.nodup_cons.mp hnodup
    have hca : c ≠ a := fun heq => hc (heq ▸ List.mem_append_right _ (List.mem_cons_self ..))
    refine ⟨hp, ?_⟩
    rw [Function.update_of_ne hca]
    exact ih hrest hnodup'

/-- The list goes through `as` and, but for what the last of these points to, ends there. -/
def Hooked (next : α → Option α) (list tail : α) (as : List α) : Prop :=
  (∃ bs, as = bs ++ [tail]) ∧ Linked (Function.update next tail none) (some list) as

theorem Hooked.congr {next next' : α → Option α} {list tail : α} {as : List α}
    (h : Hooked next list tail as) (hsame : ∀ a ∈ as, next' a = next a) :
    Hooked next' list tail as := by
  refine ⟨h.1, h.2.congr fun a ha => ?_⟩
  rcases eq_or_ne a tail with rfl | hne
  · rw [Function.update_self, Function.update_self]
  · rw [Function.update_of_ne hne, Function.update_of_ne hne, hsame a ha]

theorem hooked_self (next : α → Option α) (a : α) : Hooked next a a [a] :=
  ⟨⟨[], rfl⟩, rfl, Function.update_self ..⟩

/-- What the tail points to does not matter. -/
theorem Hooked.assign {next : α → Option α} {list tail : α} {as : List α}
    (h : Hooked next list tail as) (p : Option α) :
    Hooked (Function.update next tail p) list tail as := by
  refine ⟨h.1, ?_⟩
  rw [Function.update_idem]
  exact h.2

theorem Linked.hooked {next : α → Option α} {list tail : α} {as : List α}
    (h : Linked next (some list) as) (hmem : tail ∈ as) (hend : next tail = none) :
    Hooked next list tail as := by
  refine ⟨h.last hmem hend, h.congr fun a _ => ?_⟩
  rcases eq_or_ne a tail with rfl | hne
  · rw [Function.update_self, hend]
  · exact Function.update_of_ne hne ..

/-- Two lists become one. -/
theorem Hooked.join {next : α → Option α} {list tail : α} {as cs : List α}
    (h : Hooked next list tail as) (hnodup : as.Nodup) (hrest : Linked next (next tail) cs) :
    Linked next (some list) (as ++ cs) := by
  obtain ⟨⟨bs, rfl⟩, hlinked⟩ := h
  revert hlinked
  generalize some list = p
  induction bs generalizing p with
  | nil =>
    intro hlinked
    exact ⟨hlinked.1, hrest⟩
  | cons b bs ih =>
    intro hlinked
    obtain ⟨hp, hlinked⟩ := hlinked
    obtain ⟨hb, hnodup'⟩ := List.nodup_cons.mp hnodup
    have hbt : b ≠ tail := fun heq => hb (heq ▸ List.mem_append_right _ (List.mem_singleton_self _))
    rw [Function.update_of_ne hbt] at hlinked
    exact ⟨hp, ih hnodup' _ hlinked⟩

theorem Hooked.tail_mem {next : α → Option α} {list tail : α} {as : List α}
    (h : Hooked next list tail as) : tail ∈ as := by
  obtain ⟨⟨bs, rfl⟩, -⟩ := h
  exact List.mem_append_right _ (List.mem_singleton_self tail)

/-- A node that has another one behind it points to it. -/
theorem Hooked.next_eq {next : α → Option α} {list tail a b : α} {as bs : List α}
    (h : Hooked next list tail (as ++ a :: b :: bs)) : next a = some b := by
  have hrest := h.2.behind as
  have hat : a ≠ tail := by
    rintro rfl
    rw [Function.update_self] at hrest
    cases hrest.1
  rw [Function.update_of_ne hat] at hrest
  exact hrest.1

/-- The list behind its first node. -/
theorem Hooked.drop {next : α → Option α} {list tail a b : α} {as : List α}
    (h : Hooked next list tail (a :: b :: as)) : next a = some b ∧ Hooked next b tail (b :: as) := by
  obtain ⟨⟨bs, hbs⟩, hlinked⟩ := h
  have hat : a ≠ tail := by
    rintro rfl
    have hrest := hlinked.2
    rw [Function.update_self] at hrest
    cases hrest.1
  have hrest := hlinked.2
  rw [Function.update_of_ne hat] at hrest
  refine ⟨hrest.1, ?_, rfl, hrest.2⟩
  cases bs with
  | nil => exact absurd (List.cons.inj hbs).1 hat
  | cons c bs => exact ⟨bs, (List.cons.inj hbs).2⟩

theorem Hooked.behind {next : α → Option α} {tail b : α} {bs : List α} :
    ∀ (as : List α) {list : α}, Hooked next list tail (as ++ b :: bs) →
      Hooked next b tail (b :: bs) := by
  intro as
  induction as with
  | nil =>
    intro list h
    obtain rfl : list = b := Option.some.inj h.2.1
    exact h
  | cons a as ih =>
    intro list h
    cases as with
    | nil => exact h.drop.2
    | cons c as => exact ih h.drop.2

/-- A node in front of the list. -/
theorem Hooked.prepend {next : α → Option α} {list tail b : α} {as : List α}
    (h : Hooked next list tail as) (hb : b ∉ as) :
    Hooked (Function.update next b (some list)) b tail (b :: as) := by
  have hne : b ≠ tail := fun heq => hb (heq ▸ h.tail_mem)
  obtain ⟨⟨bs, hbs⟩, hlinked⟩ := h
  refine ⟨⟨b :: bs, by rw [hbs, List.cons_append]⟩, ?_⟩
  rw [Function.update_comm hne]
  exact hlinked.prepend hb

/-- The node that the tail points to becomes the tail. -/
theorem Hooked.extend {next : α → Option α} {list tail n : α} {as : List α}
    (h : Hooked next list tail as) (hn : next tail = some n) (hnot : n ∉ as) (hnodup : as.Nodup) :
    Hooked next list n (as ++ [n]) := by
  have htail : tail ≠ n := fun heq => hnot (heq ▸ h.tail_mem)
  refine ⟨⟨as, rfl⟩, ?_⟩
  have hsame : Hooked (Function.update next n none) list tail as :=
    h.congr fun a ha => Function.update_of_ne (fun heq : a = n => hnot (heq ▸ ha)) ..
  refine hsame.join hnodup ⟨?_, Function.update_self ..⟩
  rw [Function.update_of_ne htail]
  exact hn

end Aoo.Lib
