import Aoo.Lib.Ring
import Mathlib.Data.List.Range

/-!
# A producer and a consumer

`Between` is a ring between two threads. The producer writes a slot first and moves the
write counter later, the consumer moves the read counter when it is done with a slot; both
counters only go up. What is in the slots is related to a list of keys, so that the rest
of a proof can talk about the keys alone.

`Merge` is two such queues on one timeline. The producer numbers its items and puts each
into the main queue or the spill queue, or loses it; the consumer takes the smaller of the
two fronts. As long as it does, the numbers come out in order (`Ordered`), and if none is
lost none is missing (`Ordered.out_eq_range`).

The fronts are looked at one after the other, so the smaller front must be known to stay
the smaller one while the producer goes on (`Least.push`, `Least.divert`). A main queue that was
empty may have filled when the spill queue is looked at; what is left of the first look is
`Blind`, which lasts while the spill queue is not empty.
-/

namespace Aoo.Lib

variable {κ α : Type}

/-! ## A ring between two threads -/

/-- The slots from the read counter to the write counter hold values for `keys`. -/
structure Between (R : κ → α → Prop) (slots : List α) (read write : Nat) (keys : List κ) :
    Prop where
  count : write = read + keys.length
  holds : ∃ xs, Holds slots (read % slots.length) xs ∧ List.Forall₂ R keys xs

section Between

variable {R : κ → α → Prop} {slots : List α} {read write : Nat} {keys : List κ} {k : κ} {x : α}

/-- An empty queue. -/
theorem between_nil (h : 0 < slots.length) (n : Nat) : Between R slots n n [] :=
  ⟨rfl, [], holds_nil (Nat.mod_lt _ h), List.Forall₂.nil⟩

/-- A queue has slots. -/
theorem Between.pos (h : Between R slots read write keys) : 0 < slots.length := by
  obtain ⟨xs, hholds, -⟩ := h.holds
  exact Nat.lt_of_le_of_lt (Nat.zero_le _) hholds.start

/-- A weaker relation holds of the same slots. -/
theorem Between.imp {R' : κ → α → Prop} (h : Between R slots read write keys)
    (himp : ∀ k x, R k x → R' k x) : Between R' slots read write keys := by
  obtain ⟨hcount, xs, hholds, hxs⟩ := h
  exact ⟨hcount, xs, hholds, hxs.imp himp⟩

/-- The slot behind the write counter is none of those in the queue. -/
theorem Between.free (h : Between R slots read write keys) (hroom : keys.length < slots.length)
    {i : Nat} (hlow : read ≤ i) (hhigh : i < write) :
    i % slots.length ≠ write % slots.length := by
  have hcount := h.count
  have hne : (read + (i - read)) % slots.length ≠ (read + keys.length) % slots.length :=
    slot_ne (by omega) hroom (by omega)
  rwa [Nat.add_sub_cancel' hlow, ← hcount] at hne

/-- The slot in which the next value goes. -/
theorem Between.slot_eq {xs : List α} (h : Between R slots read write keys)
    (hxs : List.Forall₂ R keys xs) :
    (read % slots.length + xs.length) % slots.length = write % slots.length := by
  rw [Nat.mod_add_mod, h.count, hxs.length_eq]

/-- While there is room, a slot can be filled and nobody sees it. -/
theorem Between.fill (h : Between R slots read write keys) (hroom : keys.length < slots.length)
    (x : α) : Between R (slots.set (write % slots.length) x) read write keys := by
  obtain ⟨xs, hholds, hxs⟩ := h.holds
  have hfree := hholds.set_free (hxs.length_eq ▸ hroom) x
  rw [h.slot_eq hxs] at hfree
  refine ⟨h.count, xs, ?_, hxs⟩
  rw [List.length_set]
  exact hfree

/-- The write index makes it visible as the last. -/
theorem Between.publish (h : Between R slots read write keys) (hroom : keys.length < slots.length)
    (hx : slots[write % slots.length]? = some x) (hk : R k x) :
    Between R slots read (write + 1) (keys ++ [k]) := by
  obtain ⟨xs, hholds, hxs⟩ := h.holds
  rw [← h.slot_eq hxs] at hx
  refine ⟨?_, xs ++ [x], hholds.extend (hxs.length_eq ▸ hroom) hx, ?_⟩
  · rw [List.length_append, List.length_singleton, h.count, Nat.add_assoc]
  · exact List.rel_append hxs (List.Forall₂.cons hk List.Forall₂.nil)

/-- The reader finds the first. -/
theorem Between.front (h : Between R slots read write (k :: keys)) :
    ∃ x, slots[read % slots.length]? = some x ∧ R k x := by
  obtain ⟨xs, hholds, hxs⟩ := h.holds
  cases hxs with
  | cons hk hrest =>
    have hfirst := hholds.at_eq 0 (by rw [List.length_cons]; omega)
    rw [Nat.add_zero, Nat.mod_mod] at hfirst
    exact ⟨_, hfirst, hk⟩

/-- The read index gives its slot back. -/
theorem Between.release (h : Between R slots read write (k :: keys)) :
    Between R slots (read + 1) write keys := by
  obtain ⟨hcount, xs, hholds, hxs⟩ := h
  cases hxs with
  | cons hk hrest =>
    have hpop := hholds.pop
    rw [Nat.mod_add_mod] at hpop
    rw [List.length_cons] at hcount
    exact ⟨by omega, _, hpop, hrest⟩

/-- The queue is empty exactly when the counters are equal. -/
theorem Between.eq_nil_iff (h : Between R slots read write keys) : keys = [] ↔ write = read := by
  have hcount := h.count
  rw [← List.length_eq_zero_iff]
  omega

end Between

/-! ## Two queues on one timeline -/

/-- The numbers of the items: those in the two queues, those that are lost and those that have
come out. `next` is the number of the next item. -/
structure Merge where
  next : Nat := 0
  main : List Nat := []
  spill : List Nat := []
  lost : List Nat := []
  out : List Nat := []

namespace Merge

def push (m : Merge) : Merge := { m with next := m.next + 1, main := m.main ++ [m.next] }

def divert (m : Merge) : Merge := { m with next := m.next + 1, spill := m.spill ++ [m.next] }

def lose (m : Merge) : Merge := { m with next := m.next + 1, lost := m.lost ++ [m.next] }

/-- The consumer takes the front of the spill queue, or of the main queue. -/
def take (m : Merge) : Bool → Merge
  | true => { m with spill := m.spill.drop 1, out := m.out ++ m.spill.take 1 }
  | false => { m with main := m.main.drop 1, out := m.out ++ m.main.take 1 }

/-- `k` is the front of one queue and smaller than all in the other one. -/
def Least (m : Merge) (k : Nat) : Bool → Prop
  | true => (∃ ks, m.spill = k :: ks) ∧ ∀ n ∈ m.main, k < n
  | false => (∃ ks, m.main = k :: ks) ∧ ∀ n ∈ m.spill, k < n

/-- What is known when the main queue was empty a moment ago. -/
def Blind (m : Merge) : Prop := ∀ k ∈ m.spill.head?, ∀ n ∈ m.main, k < n

/-- Each number is in one place, and those that are still to come out are larger than those
that have. -/
structure Ordered (m : Merge) : Prop where
  main : (m.out ++ m.main).Pairwise (· < ·)
  spill : (m.out ++ m.spill).Pairwise (· < ·)
  complete : ∀ n, n < m.next ↔ n ∈ m.out ∨ n ∈ m.main ∨ n ∈ m.spill ∨ n ∈ m.lost

theorem ordered_nil : Ordered {} where
  main := List.Pairwise.nil
  spill := List.Pairwise.nil
  complete n := by simp

variable {m : Merge} {k : Nat} {b : Bool}

/-- The next number is larger than all. -/
theorem Ordered.pairwise_concat (h : m.Ordered) {ks : List Nat}
    (hks : (m.out ++ ks).Pairwise (· < ·))
    (hmem : ∀ n ∈ ks, n ∈ m.main ∨ n ∈ m.spill) :
    (m.out ++ (ks ++ [m.next])).Pairwise (· < ·) := by
  rw [← List.append_assoc, List.pairwise_append]
  refine ⟨hks, List.pairwise_singleton _ _, fun n hn next hnext => ?_⟩
  rw [List.mem_singleton.mp hnext, h.complete]
  rcases List.mem_append.mp hn with hn | hn
  · exact Or.inl hn
  · exact Or.inr ((hmem n hn).imp id Or.inl)

/-- A key put into the main queue is the largest so far. -/
theorem Ordered.push (h : m.Ordered) : m.push.Ordered where
  main := h.pairwise_concat h.main fun _ => Or.inl
  spill := h.spill
  complete n := by
    show n < m.next + 1 ↔ n ∈ m.out ∨ n ∈ m.main ++ [m.next] ∨ n ∈ m.spill ∨ n ∈ m.lost
    rw [Nat.lt_succ_iff_lt_or_eq, h.complete, List.mem_append, List.mem_singleton]
    tauto

/-- So is one that is diverted. -/
theorem Ordered.divert (h : m.Ordered) : m.divert.Ordered where
  main := h.main
  spill := h.pairwise_concat h.spill fun _ => Or.inr
  complete n := by
    show n < m.next + 1 ↔ n ∈ m.out ∨ n ∈ m.main ∨ n ∈ m.spill ++ [m.next] ∨ n ∈ m.lost
    rw [Nat.lt_succ_iff_lt_or_eq, h.complete, List.mem_append, List.mem_singleton]
    tauto

/-- A lost key is skipped. -/
theorem Ordered.lose (h : m.Ordered) : m.lose.Ordered where
  main := h.main
  spill := h.spill
  complete n := by
    show n < m.next + 1 ↔ n ∈ m.out ∨ n ∈ m.main ∨ n ∈ m.spill ∨ n ∈ m.lost ++ [m.next]
    rw [Nat.lt_succ_iff_lt_or_eq, h.complete, List.mem_append, List.mem_singleton]
    tauto

/-- Moving the front of a queue to the end of `out`. -/
theorem pairwise_front {out ks ls : List Nat} (hks : (out ++ k :: ks).Pairwise (· < ·))
    (hls : (out ++ ls).Pairwise (· < ·)) (hlt : ∀ n ∈ ls, k < n) :
    ((out ++ [k]) ++ ks).Pairwise (· < ·) ∧ ((out ++ [k]) ++ ls).Pairwise (· < ·) := by
  rw [List.append_assoc, List.append_assoc]
  refine ⟨hks, ?_⟩
  rw [List.pairwise_append] at hks hls ⊢
  refine ⟨hls.1, List.pairwise_cons.mpr ⟨hlt, hls.2.1⟩, fun a ha n hn => ?_⟩
  rcases List.mem_cons.mp hn with rfl | hn
  · exact hks.2.2 a ha n List.mem_cons_self
  · exact hls.2.2 a ha n hn

/-- **Taking the smaller front** keeps the order. -/
theorem Ordered.take (h : m.Ordered) (hk : m.Least k b) : (m.take b).Ordered := by
  obtain ⟨next, main, spill, lost, out⟩ := m
  cases b with
  | true =>
    obtain ⟨⟨ks, rfl⟩, hlt⟩ := hk
    have hpair := pairwise_front h.spill h.main hlt
    refine ⟨hpair.2, hpair.1, fun n => (h.complete n).trans ?_⟩
    show n ∈ out ∨ n ∈ main ∨ n ∈ k :: ks ∨ n ∈ lost ↔
      n ∈ out ++ [k] ∨ n ∈ main ∨ n ∈ ks ∨ n ∈ lost
    rw [List.mem_append, List.mem_singleton, List.mem_cons]
    tauto
  | false =>
    obtain ⟨⟨ks, rfl⟩, hlt⟩ := hk
    have hpair := pairwise_front h.main h.spill hlt
    refine ⟨hpair.1, hpair.2, fun n => (h.complete n).trans ?_⟩
    show n ∈ out ∨ n ∈ k :: ks ∨ n ∈ spill ∨ n ∈ lost ↔
      n ∈ out ++ [k] ∨ n ∈ ks ∨ n ∈ spill ∨ n ∈ lost
    rw [List.mem_append, List.mem_singleton, List.mem_cons]
    tauto

/-- Taking loses nothing. -/
theorem take_lost (m : Merge) (b : Bool) : (m.take b).lost = m.lost := by
  cases b <;> rfl

/-- Taking makes room in both queues. -/
theorem take_length_le (m : Merge) (b : Bool) :
    (m.take b).main.length ≤ m.main.length ∧ (m.take b).spill.length ≤ m.spill.length := by
  cases b with
  | true => exact ⟨Nat.le_refl _, (List.drop_sublist 1 m.spill).length_le⟩
  | false => exact ⟨(List.drop_sublist 1 m.main).length_le, Nat.le_refl _⟩

/-- What has been taken is in order. -/
theorem Ordered.out_pairwise (h : m.Ordered) : m.out.Pairwise (· < ·) :=
  (List.pairwise_append.mp h.main).1

/-- A strictly increasing list that has every smaller number with a number counts from 0. -/
theorem eq_range_of_closed {ks : List Nat} (hks : ks.Pairwise (· < ·))
    (hclosed : ∀ n ∈ ks, ∀ i < n, i ∈ ks) : ks = List.range ks.length := by
  induction ks using List.reverseRecOn with
  | nil => rfl
  | append_singleton ks k ih =>
    obtain ⟨hpair, -, hlast⟩ := List.pairwise_append.mp hks
    have hlt : ∀ n ∈ ks, n < k := fun n hn => hlast n hn k (List.mem_singleton_self k)
    have hrange : ks = List.range ks.length := by
      refine ih hpair fun n hn i hi => ?_
      rcases List.mem_append.mp (hclosed n (List.mem_append_left _ hn) i hi) with hmem | hmem
      · exact hmem
      · have := hlt n hn
        rw [List.mem_singleton.mp hmem] at hi
        omega
    have hmem : ∀ n, n ∈ ks ↔ n < ks.length := fun n => by rw [hrange]; simp
    have hk : k = ks.length := by
      rcases Nat.lt_trichotomy k ks.length with h | h | h
      · exact absurd (hlt k ((hmem k).mpr h)) (Nat.lt_irrefl k)
      · exact h
      · rcases List.mem_append.mp (hclosed k (List.mem_append_right _ (List.mem_singleton_self k))
          _ h) with hin | hin
        · exact absurd ((hmem _).mp hin) (Nat.lt_irrefl _)
        · exact (List.mem_singleton.mp hin).symm
    rw [List.length_append, List.length_singleton, List.range_succ, ← hrange, hk]

/-- **If no item is lost, none is missing**: what has come out counts from 0. -/
theorem Ordered.out_eq_range (h : m.Ordered) (hlost : m.lost = []) :
    m.out = List.range m.out.length := by
  refine eq_range_of_closed h.out_pairwise fun n hn i hi => ?_
  have hnext : i < m.next := Nat.lt_trans hi ((h.complete n).mpr (Or.inl hn))
  rcases (h.complete i).mp hnext with hout | hmain | hspill | hmem
  · exact hout
  · exact absurd ((List.pairwise_append.mp h.main).2.2 n hn i hmain) (Nat.lt_asymm hi)
  · exact absurd ((List.pairwise_append.mp h.spill).2.2 n hn i hspill) (Nat.lt_asymm hi)
  · rw [hlost] at hmem
    cases hmem

/-! ## What the consumer knows while the producer goes on -/

/-- A key in the queues is below the next one. -/
theorem Ordered.lt_next (h : m.Ordered) (hk : m.Least k b) : k < m.next := by
  rw [h.complete]
  cases b with
  | true =>
    obtain ⟨⟨ks, hks⟩, -⟩ := hk
    exact Or.inr (Or.inr (Or.inl (hks ▸ List.mem_cons_self)))
  | false =>
    obtain ⟨⟨ks, hks⟩, -⟩ := hk
    exact Or.inr (Or.inl (hks ▸ List.mem_cons_self))

/-- The least key stays the least when another is put in. -/
theorem Least.push (h : m.Ordered) (hk : m.Least k b) : m.push.Least k b := by
  have hnext := h.lt_next hk
  cases b with
  | true =>
    refine ⟨hk.1, fun n hn => ?_⟩
    rcases List.mem_append.mp hn with hn | hn
    · exact hk.2 n hn
    · rw [List.mem_singleton.mp hn]
      exact hnext
  | false =>
    obtain ⟨⟨ks, hks⟩, hlt⟩ := hk
    refine ⟨⟨ks ++ [m.next], ?_⟩, hlt⟩
    rw [Merge.push, hks, List.cons_append]

/-- It stays the least when another is diverted. -/
theorem Least.divert (h : m.Ordered) (hk : m.Least k b) : m.divert.Least k b := by
  have hnext := h.lt_next hk
  cases b with
  | true =>
    obtain ⟨⟨ks, hks⟩, hlt⟩ := hk
    refine ⟨⟨ks ++ [m.next], ?_⟩, hlt⟩
    rw [Merge.divert, hks, List.cons_append]
  | false =>
    refine ⟨hk.1, fun n hn => ?_⟩
    rcases List.mem_append.mp hn with hn | hn
    · exact hk.2 n hn
    · rw [List.mem_singleton.mp hn]
      exact hnext

/-- What comes out when the smaller front is taken. -/
theorem Least.take_out (hk : m.Least k b) : (m.take b).out = m.out ++ [k] := by
  cases b with
  | true =>
    obtain ⟨⟨ks, hks⟩, -⟩ := hk
    rw [Merge.take, hks]
    rfl
  | false =>
    obtain ⟨⟨ks, hks⟩, -⟩ := hk
    rw [Merge.take, hks]
    rfl

/-- A reader of an empty main queue overlooks nothing. -/
theorem blind_of_main (h : m.main = []) : m.Blind := by
  intro k _ n hn
  rw [h] at hn
  cases hn

/-- What it may overlook are keys that come later. -/
theorem Blind.push (h : m.Ordered) (hb : m.Blind) : m.push.Blind := by
  intro k hk n hn
  rcases List.mem_append.mp hn with hn | hn
  · exact hb k hk n hn
  · rw [List.mem_singleton.mp hn, h.complete]
    exact Or.inr (Or.inr (Or.inl (List.mem_of_mem_head? hk)))

/-- The first item to spill may have waiting ones in front of it; a later one is not the front. -/
theorem Blind.divert (hb : m.Blind) (h : m.spill ≠ []) : m.divert.Blind := by
  intro k hk n hn
  obtain ⟨front, ks, hks⟩ := List.exists_cons_of_ne_nil h
  refine hb k ?_ n hn
  rw [Merge.divert, hks, List.cons_append] at hk
  rw [hks]
  exact hk

/-- What the consumer relies on while the producer goes on. -/
structure Grows (m m' : Merge) : Prop where
  out : m'.out = m.out
  main : m.main ≠ [] → m'.main ≠ []
  spill : m.spill ≠ [] → m'.spill ≠ []
  least : ∀ k b, m.Least k b → m'.Least k b
  blind : m.spill ≠ [] → m.Blind → m'.Blind

theorem Grows.refl (m : Merge) : m.Grows m := ⟨rfl, id, id, fun _ _ => id, fun _ => id⟩

/-- The queues grow by a key. -/
theorem Ordered.grows_push (h : m.Ordered) : m.Grows m.push :=
  ⟨rfl, fun _ => List.append_ne_nil_of_right_ne_nil _ (List.cons_ne_nil _ _), id,
    fun _ _ => Least.push h, fun _ => Blind.push h⟩

/-- They grow by a diverted key. -/
theorem Ordered.grows_divert (h : m.Ordered) : m.Grows m.divert :=
  ⟨rfl, id, fun _ => List.append_ne_nil_of_right_ne_nil _ (List.cons_ne_nil _ _),
    fun _ _ => Least.divert h, fun hspill hb => hb.divert hspill⟩

/-- A lost key is in none of them. -/
theorem grows_lose (m : Merge) : m.Grows m.lose := by
  refine ⟨rfl, id, id, fun k b hk => ?_, fun _ => id⟩
  cases b <;> exact hk

/-- Queues that have grown give the same key. -/
theorem Grows.take_out {m' : Merge} (h : m.Grows m') (hk : m.Least k b) :
    (m'.take b).out = (m.take b).out := by
  rw [(h.least k b hk).take_out, hk.take_out, h.out]

/-- The front of the spill queue comes out next if the main queue was empty before. -/
theorem Blind.least (hb : m.Blind) {ks : List Nat} (hks : m.spill = k :: ks) : m.Least k true :=
  ⟨⟨ks, hks⟩, hb k (by rw [hks]; rfl)⟩

/-- The front of the main queue comes out next if the spill queue is empty. -/
theorem least_main {ks : List Nat} (hks : m.main = k :: ks) (hspill : m.spill = []) :
    m.Least k false :=
  ⟨⟨ks, hks⟩, fun _ hn => absurd hn (hspill ▸ List.not_mem_nil)⟩

/-- With two fronts the smaller one comes out next. -/
theorem Ordered.least_of_fronts (h : m.Ordered) {i : Nat} {is ks : List Nat}
    (hspill : m.spill = i :: is) (hmain : m.main = k :: ks) :
    (i < k → m.Least i true) ∧ (k < i → m.Least k false) := by
  have hall : ∀ {a : Nat} {as : List Nat}, (m.out ++ a :: as).Pairwise (· < ·) →
      ∀ n ∈ a :: as, a ≤ n := by
    intro a as hpair n hn
    rcases List.mem_cons.mp hn with rfl | hn
    · exact Nat.le_refl _
    · exact Nat.le_of_lt (List.rel_of_pairwise_cons (List.pairwise_append.mp hpair).2.1 hn)
  have hspillPair := h.spill
  have hmainPair := h.main
  rw [hspill] at hspillPair
  rw [hmain] at hmainPair
  refine ⟨fun hlt => ⟨⟨is, hspill⟩, fun n hn => ?_⟩, fun hlt => ⟨⟨ks, hmain⟩, fun n hn => ?_⟩⟩
  · rw [hmain] at hn
    exact Nat.lt_of_lt_of_le hlt (hall hmainPair n hn)
  · rw [hspill] at hn
    exact Nat.lt_of_lt_of_le hlt (hall hspillPair n hn)

end Merge

end Aoo.Lib
