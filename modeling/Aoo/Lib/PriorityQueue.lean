import Mathlib.Data.List.Sort

/-!
# A stable priority queue

`PriorityQueue α` has the interface of a heap (`std::push_heap`, `std::pop_heap`): only the first
element can be seen and taken. It is kept as the list of its elements in the order in which
they will be taken. Elements are numbered when they are pushed, and the comparison goes
on to the numbers when the elements have the same priority.

`Ordered key items out` says that `out` has the items sorted by their key, and those with the same
key in the order of `items`. There is only one such list (`Ordered.unique`).
-/

namespace Aoo.Lib

variable {α : Type}

/-! ## Stable order -/

/-- `out` is `items` in the order of the keys, and in the order of `items` for equal keys. -/
structure Ordered (key : α → Nat) (items out : List α) : Prop where
  sorted : out.Pairwise fun a b => key a ≤ key b
  stable : ∀ k, out.filter (key · = k) = items.filter (key · = k)

namespace Ordered

variable {key : α → Nat} {items out : List α}

theorem nil (key : α → Nat) : Ordered key [] [] := ⟨List.Pairwise.nil, fun _ => rfl⟩

theorem mem_iff (h : Ordered key items out) {a : α} : a ∈ out ↔ a ∈ items := by
  have hfilter := h.stable (key a)
  constructor
  · intro ha
    have hmem : a ∈ items.filter (key · = key a) := by
      rw [← hfilter]
      exact List.mem_filter.mpr ⟨ha, decide_eq_true rfl⟩
    exact (List.mem_filter.mp hmem).1
  · intro ha
    have hmem : a ∈ out.filter (key · = key a) := by
      rw [hfilter]
      exact List.mem_filter.mpr ⟨ha, decide_eq_true rfl⟩
    exact (List.mem_filter.mp hmem).1

/-- Elements with certain keys stay in order. -/
theorem filter (h : Ordered key items out) (p : Nat → Bool) :
    Ordered key (items.filter fun a => p (key a)) (out.filter fun a => p (key a)) where
  sorted := h.sorted.filter _
  stable k := by
    have hcomm : ∀ l : List α, (l.filter fun a => p (key a)).filter (key · = k) =
        (l.filter (key · = k)).filter fun a => p (key a) := by
      intro l
      rw [List.filter_filter, List.filter_filter]
      congr 1
      funext a
      exact Bool.and_comm _ _
    rw [hcomm, hcomm, h.stable k]

/-- The first of one list is no smaller than the first of another. -/
theorem head_le {x y : α} {l l' : List α} (hx : Ordered key items (x :: l))
    (hy : Ordered key items (y :: l')) : key y ≤ key x := by
  have hmem : x ∈ y :: l' := hy.mem_iff.mpr (hx.mem_iff.mp List.mem_cons_self)
  rcases List.mem_cons.mp hmem with rfl | hmem
  · exact Nat.le_refl _
  · exact (List.pairwise_cons.mp hy.sorted).1 x hmem

theorem unique {out' : List α} (h : Ordered key items out) (h' : Ordered key items out') :
    out = out' := by
  induction out generalizing items out' with
  | nil =>
    cases out' with
    | nil => rfl
    | cons b out' =>
      exact absurd (h.mem_iff.mpr (h'.mem_iff.mp List.mem_cons_self)) List.not_mem_nil
  | cons a out ih =>
    cases out' with
    | nil => exact absurd (h'.mem_iff.mpr (h.mem_iff.mp List.mem_cons_self)) List.not_mem_nil
    | cons b out' =>
      have hkey : key a = key b := Nat.le_antisymm (head_le h' h) (head_le h h')
      have hboth : ∀ k, (a :: out).filter (key · = k) = (b :: out').filter (key · = k) :=
        fun k => (h.stable k).trans (h'.stable k).symm
      have hhead := hboth (key a)
      rw [List.filter_cons_of_pos (by simp), List.filter_cons_of_pos (by simp [hkey])] at hhead
      obtain ⟨rfl, htail⟩ := List.cons.inj hhead
      -- Both tails have the same elements for each key.
      have hrest : ∀ k, out'.filter (key · = k) = out.filter (key · = k) := by
        intro k
        by_cases hk : key a = k
        · rw [← hk]
          exact htail.symm
        · have := hboth k
          rw [List.filter_cons_of_neg (by simpa using hk),
            List.filter_cons_of_neg (by simpa using hk)] at this
          exact this.symm
      have hself : Ordered key out out := ⟨(List.pairwise_cons.mp h.sorted).2, fun _ => rfl⟩
      rw [ih hself ⟨(List.pairwise_cons.mp h'.sorted).2, hrest⟩]

/-- A bound does not separate elements with the same key. -/
theorem filter_split (key : α → Nat) (d k : Nat) (l : List α) :
    (l.filter fun a => decide (key a < d)).filter (key · = k) ++
      (l.filter fun a => !decide (key a < d)).filter (key · = k) = l.filter (key · = k) := by
  rw [List.filter_filter, List.filter_filter]
  by_cases hk : k < d
  · have hbelow : l.filter (fun a => decide (key a = k) && decide (key a < d)) =
        l.filter (key · = k) := by
      apply List.filter_congr
      intro a _
      by_cases ha : key a = k <;> simp [ha, hk]
    have habove : l.filter (fun a => decide (key a = k) && !decide (key a < d)) = [] := by
      apply List.filter_eq_nil_iff.mpr
      intro a _
      by_cases ha : key a = k <;> simp [ha, hk]
    rw [hbelow, habove, List.append_nil]
  · have hbelow : l.filter (fun a => decide (key a = k) && decide (key a < d)) = [] := by
      apply List.filter_eq_nil_iff.mpr
      intro a _
      by_cases ha : key a = k <;> simp [ha, hk]
    have habove : l.filter (fun a => decide (key a = k) && !decide (key a < d)) =
        l.filter (key · = k) := by
      apply List.filter_congr
      intro a _
      by_cases ha : key a = k <;> simp [ha, hk]
    rw [hbelow, habove, List.nil_append]

theorem perm [DecidableEq α] (h : Ordered key items out) : out.Perm items := by
  rw [List.perm_iff_count]
  intro a
  have hcount : ∀ l : List α, l.count a = (l.filter (key · = key a)).count a := by
    intro l
    rw [List.count_filter (by simp)]
  rw [hcount, hcount items, h.stable]

end Ordered

/-! ## The queue -/

/-- An element with its number. -/
structure Proxy (α : Type) where
  object : α
  order : Nat
  deriving DecidableEq, Repr

structure PriorityQueue (α : Type) where
  queue : List (Proxy α) := []
  counter : Nat := 0
  deriving DecidableEq, Repr

section
variable (comp : α → α → Bool)

/-- Whether `l` comes behind `r`. A higher number means a lower priority. -/
def proxyComp (l r : Proxy α) : Bool :=
  if comp l.object r.object then true
  else if comp r.object l.object then false
  else decide (l.order > r.order)

/-- In front of all that come behind it. -/
def insertProxy (x : Proxy α) : List (Proxy α) → List (Proxy α)
  | [] => [x]
  | y :: ys => if proxyComp comp y x then x :: y :: ys else y :: insertProxy x ys

def PriorityQueue.push (q : PriorityQueue α) (x : α) : PriorityQueue α where
  queue := insertProxy comp ⟨x, q.counter⟩ q.queue
  counter := q.counter + 1

end

/-- A loop that takes elements while the first has the property. The counter starts again when
the queue becomes empty. -/
def popWhile (p : α → Bool) : List (Proxy α) → Nat → List α × PriorityQueue α
  | [], counter => ([], ⟨[], counter⟩)
  | x :: rest, counter =>
    if p x.object then
      let (taken, q) := popWhile p rest (if rest = [] then 0 else counter)
      (x.object :: taken, q)
    else ([], ⟨x :: rest, counter⟩)

def PriorityQueue.popWhile (p : α → Bool) (q : PriorityQueue α) : List α × PriorityQueue α :=
  Lib.popWhile p q.queue q.counter

namespace PriorityQueue

/-- The elements in the order in which they will be taken. -/
def objects (q : PriorityQueue α) : List α := q.queue.map Proxy.object

/-- The queue has the items, numbered below the counter. -/
structure Holds (key : α → Nat) (q : PriorityQueue α) (items : List α) : Prop where
  ordered : Ordered key items q.objects
  numbered : ∀ x ∈ q.queue, x.order < q.counter

theorem holds_empty (key : α → Nat) : Holds key ({} : PriorityQueue α) [] where
  ordered := Ordered.nil key
  numbered := nofun

variable {key : α → Nat} {q : PriorityQueue α} {items : List α}

/-- A new element goes behind all elements with the same key, as its number is the largest. -/
theorem insertProxy_split {l : List (Proxy α)} {x : α} {n : Nat} (hn : ∀ y ∈ l, y.order < n)
    (hl : (l.map Proxy.object).Pairwise fun a b => key a ≤ key b) :
    ∃ l₁ l₂, l = l₁ ++ l₂ ∧
      insertProxy (fun a b => decide (key a > key b)) ⟨x, n⟩ l = l₁ ++ ⟨x, n⟩ :: l₂ ∧
      (∀ y ∈ l₁, key y.object ≤ key x) ∧ ∀ y ∈ l₂, key x < key y.object := by
  induction l with
  | nil => exact ⟨[], [], rfl, rfl, nofun, nofun⟩
  | cons y l ih =>
    have hy := hn y List.mem_cons_self
    obtain ⟨hhead, htail⟩ := List.pairwise_cons.mp hl
    unfold insertProxy
    split
    next hcomp =>
      have hlt : key x < key y.object := by
        simp only [proxyComp] at hcomp
        split_ifs at hcomp with h1 h2
        · exact of_decide_eq_true h1
        · simp only [gt_iff_lt, decide_eq_true_eq] at hcomp
          omega
      refine ⟨[], y :: l, rfl, rfl, nofun, ?_⟩
      intro z hz
      rcases List.mem_cons.mp hz with rfl | hz
      · exact hlt
      · exact Nat.lt_of_lt_of_le hlt (hhead z.object (List.mem_map_of_mem hz))
    next hcomp =>
      obtain ⟨l₁, l₂, rfl, hinsert, hle, hlt⟩ :=
        ih (fun z hz => hn z (List.mem_cons_of_mem y hz)) htail
      refine ⟨y :: l₁, l₂, rfl, by rw [hinsert]; rfl, ?_, hlt⟩
      intro z hz
      rcases List.mem_cons.mp hz with rfl | hz
      · by_contra hgt
        exact hcomp (if_pos (decide_eq_true (Nat.lt_of_not_le hgt)))
      · exact hle z hz

/-- A pushed element comes last in the order of insertion. -/
theorem Holds.push (h : Holds key q items) (x : α) :
    Holds key (q.push (fun a b => decide (key a > key b)) x) (items ++ [x]) := by
  obtain ⟨l₁, l₂, hq, hinsert, hle, hlt⟩ :=
    insertProxy_split (x := x) h.numbered h.ordered.sorted
  have hobjects : (q.push (fun a b => decide (key a > key b)) x).objects =
      l₁.map Proxy.object ++ x :: l₂.map Proxy.object := by
    simp only [objects, PriorityQueue.push, hinsert, List.map_append, List.map_cons]
  have hold : q.objects = l₁.map Proxy.object ++ l₂.map Proxy.object := by
    rw [objects, hq, List.map_append]
  refine ⟨⟨?_, fun k => ?_⟩, ?_⟩
  · have hsorted := h.ordered.sorted
    rw [hold, List.pairwise_append] at hsorted
    rw [hobjects, List.pairwise_append, List.pairwise_cons]
    refine ⟨hsorted.1, ⟨?_, hsorted.2.1⟩, ?_⟩
    · intro b hb
      obtain ⟨y, hy, rfl⟩ := List.mem_map.mp hb
      exact Nat.le_of_lt (hlt y hy)
    · intro a ha b hb
      rcases List.mem_cons.mp hb with rfl | hb
      · obtain ⟨y, hy, rfl⟩ := List.mem_map.mp ha
        exact hle y hy
      · exact hsorted.2.2 a ha b hb
  · have hstable := h.ordered.stable k
    rw [hold, List.filter_append] at hstable
    rw [hobjects, List.filter_append, List.filter_append, ← hstable]
    by_cases hk : key x = k
    · have hnone : (l₂.map Proxy.object).filter (key · = k) = [] := by
        rw [List.filter_eq_nil_iff]
        intro b hb
        obtain ⟨y, hy, rfl⟩ := List.mem_map.mp hb
        have := hlt y hy
        simp only [decide_eq_true_eq]
        omega
      rw [List.filter_cons_of_pos (by simpa using hk), hnone, List.append_nil,
        List.filter_cons_of_pos (by simpa using hk)]
      rfl
    · rw [List.filter_cons_of_neg (by simpa using hk), List.filter_cons_of_neg (by simpa using hk)]
      simp
  · intro y hy
    show y.order < q.counter + 1
    rw [PriorityQueue.push, hinsert] at hy
    rcases List.mem_append.mp hy with hy | hy
    · have := h.numbered y (hq ▸ List.mem_append_left l₂ hy)
      omega
    · rcases List.mem_cons.mp hy with rfl | hy
      · exact Nat.lt_succ_self _
      · have := h.numbered y (hq ▸ List.mem_append_right l₁ hy)
        omega

/-- What is taken, and what is left. -/
theorem popWhile_eq (d : Nat) {l : List (Proxy α)} {n : Nat} (hn : ∀ y ∈ l, y.order < n)
    (hl : (l.map Proxy.object).Pairwise fun a b => key a ≤ key b) :
    (Lib.popWhile (fun a => decide (key a < d)) l n).1 =
        (l.map Proxy.object).filter (fun a => decide (key a < d)) ∧
      (Lib.popWhile (fun a => decide (key a < d)) l n).2.objects =
        (l.map Proxy.object).filter (fun a => !decide (key a < d)) ∧
      ∀ y ∈ (Lib.popWhile (fun a => decide (key a < d)) l n).2.queue,
        y.order < (Lib.popWhile (fun a => decide (key a < d)) l n).2.counter := by
  induction l generalizing n with
  | nil => exact ⟨rfl, rfl, nofun⟩
  | cons x rest ih =>
    obtain ⟨hhead, htail⟩ := List.pairwise_cons.mp hl
    unfold Lib.popWhile
    by_cases hx : key x.object < d
    · have hrest : ∀ y ∈ rest, y.order < if rest = [] then 0 else n := by
        intro y hy
        rw [if_neg (List.ne_nil_of_mem hy)]
        exact hn y (List.mem_cons_of_mem x hy)
      obtain ⟨htaken, hleft, hnumbered⟩ := ih hrest htail
      rw [if_pos (decide_eq_true hx), List.map_cons, List.filter_cons_of_pos (by simpa using hx),
        List.filter_cons_of_neg (by simpa using hx)]
      exact ⟨congrArg _ htaken, hleft, hnumbered⟩
    · -- The queue is sorted, so nothing behind the first element is below the bound.
      have hall : ∀ a ∈ (x :: rest).map Proxy.object, ¬ key a < d := by
        intro a ha
        rcases List.mem_cons.mp ha with rfl | ha
        · exact hx
        · have := hhead a ha
          omega
      rw [if_neg (by simpa using hx)]
      refine ⟨?_, ?_, hn⟩
      · exact (List.filter_eq_nil_iff.mpr fun a ha => by simpa using hall a ha).symm
      · exact (List.filter_eq_self.mpr fun a ha => by simpa using hall a ha).symm

/-- A loop up to a bound takes all items below it, in order, and the others stay. -/
theorem Holds.popWhile (h : Holds key q items) (d : Nat) :
    Ordered key (items.filter fun a => decide (key a < d))
        (q.popWhile fun a => decide (key a < d)).1 ∧
      Holds key (q.popWhile fun a => decide (key a < d)).2
        (items.filter fun a => !decide (key a < d)) := by
  obtain ⟨htaken, hleft, hnumbered⟩ := popWhile_eq d h.numbered h.ordered.sorted
  refine ⟨?_, ?_, hnumbered⟩
  · rw [PriorityQueue.popWhile, htaken]
    exact h.ordered.filter fun k => decide (k < d)
  · rw [PriorityQueue.popWhile, hleft]
    exact h.ordered.filter fun k => !decide (k < d)

end PriorityQueue

end Aoo.Lib
