import Aoo.LockFree.List
import Mathlib.Data.Fintype.Card

/-!
# Who owns the nodes of a `concurrent_list`

Every constructed node has one owner: it is in the list, in the free list, in the hand of the
thread that removes or of the thread that reclaims it, doomed (the reclaiming thread destroys
it), or not published yet. `Ghost` says which, and lists the nodes of each kind in the
order in which they are linked.

An iterator may be at any node that is not doomed and has been published (`Visible`), and
walking does not leave these nodes (`Shared.closed`); `dispose_node` puts a removed node in
front of the free list, so that an iterator which is there continues in the free list. Nodes
become doomed only when nobody holds the list.

This module has the effects of the atomic operations on all this, one lemma for each. What
the other threads rely on meanwhile is `Rely`.
-/

namespace Aoo.LockFree

open Lib

/-- Where a published node is. -/
inductive Kind
  | live
  | free
  /-- Unlinked, not in the free list yet. -/
  | removed
  /-- In the hand of `reclaim`, which may still put it back. -/
  | taken
  /-- `destroy_list` will destroy it. -/
  | doomed
  deriving DecidableEq

inductive Owner (ι : Type)
  | held (k : Kind)
  /-- Constructed by the thread `i`, not published yet. -/
  | fresh (i : ι)
  deriving DecidableEq

structure Ghost (ι : Type) where
  own : Addr → Option (Owner ι) := fun _ => none
  nodes : Kind → List Addr := fun _ => []
  /-- The threads that hold the list. -/
  holders : Finset ι := ∅

variable {ι α : Type}

/-- A reader may be at `a`. -/
def Visible (c : Ghost ι) (a : Addr) : Prop :=
  ∃ k, k ≠ Kind.doomed ∧ c.own a = some (.held k)

/-- The node has been in the free list and has not been doomed. -/
def Retired (c : Ghost ι) (a : Addr) : Prop :=
  c.own a = some (.held .free) ∨ c.own a = some (.held .taken)

/-- A retired node may still be seen by a reader. -/
theorem Retired.visible {c : Ghost ι} {a : Addr} (h : Retired c a) : Visible c a := by
  rcases h with h | h
  · exact ⟨.free, by decide, h⟩
  · exact ⟨.taken, by decide, h⟩

namespace Ghost

/-- The published nodes `as` become nodes of the kind `k`. -/
def move (c : Ghost ι) (as : List Addr) (k : Kind) : Ghost ι where
  own a := if a ∈ as then some (.held k) else c.own a
  nodes k' := if k' = k then as ++ c.nodes k else (c.nodes k').filter (· ∉ as)
  holders := c.holders

/-- A node gets a first owner, or loses its last one. -/
def assign (c : Ghost ι) (n : Addr) (o : Option (Owner ι)) : Ghost ι where
  own := Function.update c.own n o
  nodes k := (c.nodes k).filter (· ≠ n)
  holders := c.holders

/-- The lists and the owners agree. -/
def Agree (c : Ghost ι) : Prop :=
  ∀ k, (c.nodes k).Nodup ∧ ∀ a, a ∈ c.nodes k ↔ c.own a = some (.held k)

variable {c : Ghost ι} {as : List Addr} {k k' : Kind} {n : Addr}

/-- Moved nodes are where they were moved. -/
theorem nodes_move_self : (c.move as k).nodes k = as ++ c.nodes k := if_pos rfl

/-- They are in no other list. -/
theorem nodes_move_of_ne (h : k' ≠ k) :
    (c.move as k).nodes k' = (c.nodes k').filter (· ∉ as) := if_neg h

/-- Their owner says so. -/
theorem own_move_of_mem {a : Addr} (h : a ∈ as) : (c.move as k).own a = some (.held k) := if_pos h

/-- Other nodes keep their owner. -/
theorem own_move_of_not_mem {a : Addr} (h : a ∉ as) : (c.move as k).own a = c.own a := if_neg h

/-- Lists of other kinds, from which nothing is taken. -/
theorem Agree.nodes_move (h : c.Agree) (hne : k' ≠ k) (has : ∀ a ∈ as, c.own a ≠ some (.held k')) :
    (c.move as k).nodes k' = c.nodes k' := by
  rw [nodes_move_of_ne hne, List.filter_eq_self]
  intro a ha
  refine decide_eq_true fun hmem => ?_
  exact has a hmem (((h k').2 a).mp ha)

/-- The list from which all is taken. -/
theorem nodes_move_all (hne : k' ≠ k) : (c.move (c.nodes k') k).nodes k' = [] := by
  rw [nodes_move_of_ne hne, List.filter_eq_nil_iff]
  intro a ha hmem
  exact of_decide_eq_true hmem ha

/-- The list from which one node is taken. -/
theorem Agree.nodes_move_one (h : c.Agree) (hne : k' ≠ k) {bs cs : List Addr}
    (hlist : c.nodes k' = bs ++ n :: cs) : (c.move [n] k).nodes k' = bs ++ cs := by
  have hnodup := (h k').1
  rw [hlist] at hnodup
  have hn := (List.nodup_middle.mp hnodup).notMem
  have hkeep : (bs ++ cs).filter (· ∉ [n]) = bs ++ cs := by
    refine List.filter_eq_self.mpr fun a ha => decide_eq_true fun hmem => ?_
    exact hn (List.mem_singleton.mp hmem ▸ ha)
  rw [List.filter_append] at hkeep
  rw [nodes_move_of_ne hne, hlist, List.filter_append, List.filter_cons_of_neg]
  · exact hkeep
  · exact fun hmem => of_decide_eq_true hmem (List.mem_singleton_self n)

/-- Owners and lists agree after a move. -/
theorem Agree.move (h : c.Agree) (hnodup : as.Nodup) (has : ∀ a ∈ as, c.own a ≠ some (.held k)) :
    (c.move as k).Agree := by
  intro k'
  rcases eq_or_ne k' k with rfl | hne
  · rw [nodes_move_self]
    refine ⟨hnodup.append (h k').1 fun a ha hk => has a ha (((h k').2 a).mp hk), fun a => ?_⟩
    rw [List.mem_append]
    by_cases hmem : a ∈ as
    · rw [own_move_of_mem hmem]
      exact iff_of_true (Or.inl hmem) rfl
    · rw [own_move_of_not_mem hmem, ← (h k').2 a]
      exact or_iff_right hmem
  · rw [nodes_move_of_ne hne]
    refine ⟨(h k').1.filter _, fun a => ?_⟩
    rw [List.mem_filter, decide_eq_true_iff]
    by_cases hmem : a ∈ as
    · rw [own_move_of_mem hmem]
      refine iff_of_false (fun hc => hc.2 hmem) fun hc => ?_
      injection hc with hc
      injection hc with hc
      exact hne hc.symm
    · rw [own_move_of_not_mem hmem, (h k').2 a]
      exact and_iff_left hmem

theorem own_assign_self {o : Option (Owner ι)} : (c.assign n o).own n = o :=
  Function.update_self ..

theorem own_assign_of_ne {a : Addr} {o : Option (Owner ι)} (h : a ≠ n) :
    (c.assign n o).own a = c.own a := Function.update_of_ne h ..

/-- A change of a node that is in no list keeps owners and lists in agreement. -/
theorem Agree.assign (h : c.Agree) {o : Option (Owner ι)} (ho : ∀ k, o ≠ some (.held k)) :
    (c.assign n o).Agree := by
  intro k
  refine ⟨(h k).1.filter _, fun a => ?_⟩
  show a ∈ (c.nodes k).filter (· ≠ n) ↔ _
  rw [List.mem_filter, decide_eq_true_iff]
  rcases eq_or_ne a n with rfl | hne
  · rw [own_assign_self]
    exact iff_of_false (fun hc => hc.2 rfl) (ho k)
  · rw [own_assign_of_ne hne, (h k).2 a]
    exact and_iff_left hne

/-- A list that the node was not in. -/
theorem Agree.nodes_assign (h : c.Agree) {o : Option (Owner ι)}
    (hn : c.own n ≠ some (.held k)) : (c.assign n o).nodes k = c.nodes k := by
  refine List.filter_eq_self.mpr fun a ha => decide_eq_true ?_
  rintro rfl
  exact hn (((h k).2 a).mp ha)

theorem Agree.nodup (h : c.Agree) (k : Kind) : (c.nodes k).Nodup := (h k).1

/-- A node of a list is owned by it. -/
theorem Agree.own (h : c.Agree) {a : Addr} (ha : a ∈ c.nodes k) : c.own a = some (.held k) :=
  ((h k).2 a).mp ha

/-- A node that a list owns is in it. -/
theorem Agree.mem (h : c.Agree) {a : Addr} (ha : c.own a = some (.held k)) : a ∈ c.nodes k :=
  ((h k).2 a).mpr ha

end Ghost

/-! ## The shared state -/

/-- What holds of the list and its nodes between any two atomic operations. -/
structure Shared (g : ConcurrentList ι α) (c : Ghost ι) : Prop where
  constructed : ∀ a, (g.data a).isSome = true ↔ (c.own a).isSome = true
  agree : c.Agree
  head : Linked g.next g.head (c.nodes .live)
  free : Linked g.next g.free (c.nodes .free)
  closed : ∀ a b, Visible c a → g.next a = some b → Visible c b
  retired : ∀ a b, Retired c a → g.next a = some b → Retired c b
  refcount : g.refcount = BitVec.ofNat 32 c.holders.card
  removerHolds : ∀ i, g.remover = some i → i ∈ c.holders
  idleRemover : g.remover = none → c.nodes .removed = []
  idleReclaimer : g.reclaimer = none → c.nodes .taken = [] ∧ c.nodes .doomed = []

/-- What the thread `i` may count on while the other threads go on. -/
structure Rely (i : ι) (g : ConcurrentList ι α) (c : Ghost ι) (g' : ConcurrentList ι α)
    (c' : Ghost ι) : Prop where
  holder : i ∈ c'.holders ↔ i ∈ c.holders
  remover : g'.remover = some i ↔ g.remover = some i
  reclaimer : g'.reclaimer = some i ↔ g.reclaimer = some i
  fresh : ∀ a, c'.own a = some (.fresh i) ↔ c.own a = some (.fresh i)
  freshNext : ∀ a, c.own a = some (.fresh i) → g'.next a = g.next a
  visible : i ∈ c.holders ∨ g.remover = some i ∨ g.reclaimer = some i →
    ∀ a, Visible c a → Visible c' a
  retired : g.remover = some i ∨ g.reclaimer = some i → ∀ a, Retired c a → Retired c' a
  live : g.remover = some i → ∀ a, c.own a = some (.held .live) →
    c'.own a = some (.held .live) ∧ g'.next a = g.next a
  notRevived : g.remover = some i → ∀ a, Visible c a → c'.own a = some (.held .live) →
    c.own a = some (.held .live)
  removed : g.remover = some i → c'.nodes .removed = c.nodes .removed ∧
    ∀ a ∈ c.nodes .removed, g'.next a = g.next a
  taken : g.reclaimer = some i →
    (c'.nodes .taken = c.nodes .taken ∧ ∀ a ∈ c.nodes .taken, g'.next a = g.next a) ∧
    c'.nodes .doomed = c.nodes .doomed ∧ ∀ a ∈ c.nodes .doomed, g'.next a = g.next a

theorem Rely.refl (i : ι) (g : ConcurrentList ι α) (c : Ghost ι) : Rely i g c g c where
  holder := Iff.rfl
  remover := Iff.rfl
  reclaimer := Iff.rfl
  fresh _ := Iff.rfl
  freshNext _ _ := rfl
  visible _ _ := id
  retired _ _ := id
  live _ _ h := ⟨h, rfl⟩
  notRevived _ _ _ h := h
  removed _ := ⟨rfl, fun _ _ => rfl⟩
  taken _ := ⟨⟨rfl, fun _ _ => rfl⟩, rfl, fun _ _ => rfl⟩

/-- What others do in two steps. -/
theorem Rely.trans {i : ι} {g g' g'' : ConcurrentList ι α} {c c' c'' : Ghost ι}
    (h : Rely i g c g' c') (h' : Rely i g' c' g'' c'') : Rely i g c g'' c'' where
  holder := h'.holder.trans h.holder
  remover := h'.remover.trans h.remover
  reclaimer := h'.reclaimer.trans h.reclaimer
  fresh a := (h'.fresh a).trans (h.fresh a)
  freshNext a ha := (h'.freshNext a ((h.fresh a).mpr ha)).trans (h.freshNext a ha)
  visible hi a ha := by
    refine h'.visible ?_ a (h.visible hi a ha)
    rw [h.holder, h.remover, h.reclaimer]
    exact hi
  retired hi a ha := by
    refine h'.retired ?_ a (h.retired hi a ha)
    rw [h.remover, h.reclaimer]
    exact hi
  live hi a ha := by
    obtain ⟨hown, hnext⟩ := h.live hi a ha
    obtain ⟨hown', hnext'⟩ := h'.live (h.remover.mpr hi) a hown
    exact ⟨hown', hnext'.trans hnext⟩
  notRevived hi a ha hlive := by
    refine h.notRevived hi a ha (h'.notRevived (h.remover.mpr hi) a ?_ hlive)
    exact h.visible (Or.inr (Or.inl hi)) a ha
  removed hi := by
    obtain ⟨hlist, hnext⟩ := h.removed hi
    obtain ⟨hlist', hnext'⟩ := h'.removed (h.remover.mpr hi)
    rw [hlist] at hlist' hnext'
    exact ⟨hlist', fun a ha => (hnext' a ha).trans (hnext a ha)⟩
  taken hi := by
    obtain ⟨⟨hlist, hnext⟩, hlistD, hnextD⟩ := h.taken hi
    obtain ⟨⟨hlist', hnext'⟩, hlistD', hnextD'⟩ := h'.taken (h.reclaimer.mpr hi)
    rw [hlist] at hlist' hnext'
    rw [hlistD] at hlistD' hnextD'
    exact ⟨⟨hlist', fun a ha => (hnext' a ha).trans (hnext a ha)⟩,
      hlistD', fun a ha => (hnextD' a ha).trans (hnextD a ha)⟩

/-! ## What a thread may do -/

/-- The nodes that the thread `i` may write to. -/
inductive Writes (i : ι) (g : ConcurrentList ι α) : Owner ι → Prop
  | fresh : Writes i g (.fresh i)
  | live (h : g.remover = some i) : Writes i g (.held .live)
  | removed (h : g.remover = some i) : Writes i g (.held .removed)
  | taken (h : g.reclaimer = some i) : Writes i g (.held .taken)

/-- The life of a node: who moves it from where to where. -/
inductive Moves (i : ι) (g : ConcurrentList ι α) (c : Ghost ι) : Owner ι → Kind → Prop
  | publish : Moves i g c (.fresh i) .live
  | unlink (h : g.remover = some i) : Moves i g c (.held .live) .removed
  | dispose (h : g.remover = some i) : Moves i g c (.held .removed) .free
  | take (h : g.reclaimer = some i) : Moves i g c (.held .free) .taken
  | putBack (h : g.reclaimer = some i) : Moves i g c (.held .taken) .free
  | doom (h : g.reclaimer = some i) (hnone : c.holders = ∅) (hrem : g.remover = none) :
    Moves i g c (.held .taken) .doomed

/-- A node is in one list at a time. -/
theorem held_ne {k k' : Kind} (h : k ≠ k') : (Owner.held k : Owner ι) ≠ .held k' :=
  fun hc => h (Owner.held.inj hc)

/-- A new node is in no list. -/
theorem fresh_ne {i : ι} {k : Kind} : Owner.fresh i ≠ .held k := by
  intro h
  cases h

section Moves

variable {i j : ι} {g g' : ConcurrentList ι α} {c : Ghost ι} {o : Owner ι} {k : Kind}
  {as : List Addr}

/-- One thread at a time has a role. -/
theorem some_ne_of_ne (hij : j ≠ i) {r : Option ι} (h : r = some i) : r ≠ some j := by
  rintro hc
  exact hij (Option.some.inj (hc.symm.trans h))

/-- Writing to a node of its own is nothing that another thread notices. -/
theorem rely_next (hagree : c.Agree) (hij : j ≠ i) {n : Addr} (hwrites : Writes i g o)
    (hown : c.own n = some o) (p : Option Addr) : Rely j g c (g.setNext n p) c := by
  have hother : ∀ a o', c.own a = some o' → o' ≠ o → (g.setNext n p).next a = g.next a := by
    intro a o' ha hne
    refine Function.update_of_ne ?_ ..
    rintro rfl
    exact hne (Option.some.inj (ha.symm.trans hown))
  refine ⟨Iff.rfl, Iff.rfl, Iff.rfl, fun _ => Iff.rfl, fun a ha => hother a _ ha ?_,
    fun _ _ => id, fun _ _ => id, fun hj a ha => ⟨ha, hother a _ ha ?_⟩, fun _ _ _ h => h,
    fun hj => ⟨rfl, fun a ha => hother a _ (hagree.own ha) ?_⟩,
    fun hj => ⟨⟨rfl, fun a ha => hother a _ (hagree.own ha) ?_⟩, rfl,
      fun a ha => hother a _ (hagree.own ha) ?_⟩⟩
  · rintro rfl
    cases hwrites
    exact hij rfl
  · rintro rfl
    cases hwrites with
    | live h => exact some_ne_of_ne hij h hj
  · rintro rfl
    cases hwrites with
    | removed h => exact some_ne_of_ne hij h hj
  · rintro rfl
    cases hwrites with
    | taken h => exact some_ne_of_ne hij h hj
  · rintro rfl
    cases hwrites

/-- A node that moves was somewhere else. -/
theorem Moves.ne (h : Moves i g c o k) : o ≠ .held k := by
  rintro rfl
  cases h

/-- Nor is moving nodes of its own. -/
theorem rely_move (hagree : c.Agree) (hij : j ≠ i) (hmoves : Moves i g c o k)
    (hown : ∀ a ∈ as, c.own a = some o) : Rely j g c g (c.move as k) := by
  -- the lists of the kinds that `j` looks after stay as they are
  have hlist : ∀ k', k' ≠ k → o ≠ .held k' → (c.move as k).nodes k' = c.nodes k' := by
    intro k' hk ho
    refine hagree.nodes_move hk fun a ha hc => ?_
    exact ho (Option.some.inj ((hown a ha).symm.trans hc))
  have hkeep : ∀ a o', o' ≠ o → c.own a = some o' → (c.move as k).own a = some o' := by
    intro a o' hne ha
    rwa [Ghost.own_move_of_not_mem]
    intro hmem
    exact hne (Option.some.inj (ha.symm.trans (hown a hmem)))
  refine ⟨Iff.rfl, Iff.rfl, Iff.rfl, fun a => ⟨fun ha => ?_, hkeep a _ ?_⟩, fun _ _ => rfl,
    fun hj a ha => ?_, fun hj a ha => ?_, fun hj a ha => ⟨hkeep a _ ?_ ha, rfl⟩,
    fun hj a ha hlive => ?_, fun hj => ⟨hlist _ ?_ ?_, fun _ _ => rfl⟩,
    fun hj => ⟨⟨hlist _ ?_ ?_, fun _ _ => rfl⟩, hlist _ ?_ ?_, fun _ _ => rfl⟩⟩
  · by_cases hmem : a ∈ as
    · rw [Ghost.own_move_of_mem hmem] at ha
      cases ha
    · rwa [Ghost.own_move_of_not_mem hmem] at ha
  · rintro rfl
    cases hmoves
    exact hij rfl
  · -- only `doom` makes nodes invisible
    obtain ⟨k', hk', hak⟩ := ha
    by_cases hmem : a ∈ as
    · refine ⟨k, ?_, Ghost.own_move_of_mem hmem⟩
      rintro rfl
      cases hmoves with
      | doom h hnone hrem =>
        rw [hnone, hrem] at hj
        rcases hj with hj | hj | hj
        · cases hj
        · cases hj
        · exact some_ne_of_ne hij h hj
    · exact ⟨k', hk', (Ghost.own_move_of_not_mem hmem).trans hak⟩
  · by_cases hmem : a ∈ as
    · -- the nodes were retired before
      have hret : o = .held .free ∨ o = .held .taken := by
        have ha' : c.own a = some (.held .free) ∨ c.own a = some (.held .taken) := ha
        rw [hown a hmem] at ha'
        exact ha'.imp Option.some.inj Option.some.inj
      unfold Retired
      rw [Ghost.own_move_of_mem hmem]
      rcases hret with rfl | rfl
      · cases hmoves
        exact Or.inr rfl
      · cases hmoves with
        | putBack h => exact Or.inl rfl
        | doom h hnone hrem =>
          rw [hrem] at hj
          rcases hj with hj | hj
          · cases hj
          · exact absurd hj (some_ne_of_ne hij h)
    · unfold Retired
      rw [Ghost.own_move_of_not_mem hmem]
      exact ha
  · rintro rfl
    cases hmoves with
    | unlink h => exact some_ne_of_ne hij h hj
  · by_cases hmem : a ∈ as
    · rw [Ghost.own_move_of_mem hmem] at hlive
      injection hlive with hlive
      injection hlive with hlive
      subst hlive
      obtain ⟨k', -, hak⟩ := ha
      rw [hown a hmem] at hak
      cases hmoves
      cases hak
    · rwa [Ghost.own_move_of_not_mem hmem] at hlive
  all_goals
    rintro rfl
    cases hmoves
  any_goals exact some_ne_of_ne hij ‹_› hj

/-- Only the links of the nodes and the two roles count. -/
theorem Rely.congr {c' : Ghost ι} {g'' : ConcurrentList ι α} (h : Rely j g c g' c')
    (hnext : g''.next = g'.next) (hrem : g''.remover = g'.remover)
    (hrec : g''.reclaimer = g'.reclaimer) : Rely j g c g'' c' where
  holder := h.holder
  remover := hrem ▸ h.remover
  reclaimer := hrec ▸ h.reclaimer
  fresh := h.fresh
  freshNext := hnext ▸ h.freshNext
  visible := h.visible
  retired := h.retired
  live := hnext ▸ h.live
  notRevived := h.notRevived
  removed := hnext ▸ h.removed
  taken := hnext ▸ h.taken

/-- A role is nobody's or that of `i`. -/
def Mine (i : ι) (r : Option ι) : Prop := r = none ∨ r = some i

theorem Mine.ne {r : Option ι} (h : Mine i r) (hij : j ≠ i) : r ≠ some j := by
  rcases h with rfl | rfl
  · exact (Option.some_ne_none j).symm
  · exact some_ne_of_ne hij rfl

/-- A thread takes a role, or gives it back. -/
theorem rely_roles (hij : j ≠ i) {r r' : Option ι} (hrem : g.remover = r ∨ Mine i g.remover ∧ Mine i r)
    (hrec : g.reclaimer = r' ∨ Mine i g.reclaimer ∧ Mine i r') :
    Rely j g c { g with remover := r, reclaimer := r' } c := by
  have hsame : ∀ {a b : Option ι}, a = b ∨ Mine i a ∧ Mine i b → (b = some j ↔ a = some j) := by
    intro a b hab
    rcases hab with rfl | ⟨ha, hb⟩
    · exact Iff.rfl
    · exact iff_of_false (hb.ne hij) (ha.ne hij)
  exact { Rely.refl j g c with remover := hsame hrem, reclaimer := hsame hrec }

/-- Other readers may come and go. -/
theorem rely_holders {holders : Finset ι} (hj : j ∈ holders ↔ j ∈ c.holders) (r : BitVec 32) :
    Rely j g c { g with refcount := r } { c with holders := holders } :=
  { Rely.refl j g c with holder := hj }

/-- A node comes from the allocator or goes back to it. -/
theorem rely_assign (hagree : c.Agree) (hij : j ≠ i) {n : Addr} {o' : Option (Owner ι)}
    (hold : c.own n = none ∨ c.own n = some (.held .doomed) ∧ g.reclaimer = some i)
    (hnew : o' = none ∨ o' = some (.fresh i))
    (hnext : ∀ a, a ≠ n → g'.next a = g.next a) (hrem : g'.remover = g.remover)
    (hrec : g'.reclaimer = g.reclaimer) : Rely j g c g' (c.assign n o') := by
  have hne : ∀ {a o}, c.own a = some o → o ≠ .held .doomed → a ≠ n := by
    rintro a o ha ho rfl
    rcases hold with hold | ⟨hold, -⟩
    · exact absurd (ha.symm.trans hold) (Option.some_ne_none o)
    · exact ho (Option.some.inj (ha.symm.trans hold))
  have hlist : ∀ k, k ≠ .doomed → (c.assign n o').nodes k = c.nodes k := by
    intro k hk
    exact hagree.nodes_assign fun hn => hne hn (held_ne hk) rfl
  have hkeep : ∀ {a o}, c.own a = some o → o ≠ .held .doomed → (c.assign n o').own a = some o := by
    intro a o ha ho
    rwa [Ghost.own_assign_of_ne (hne ha ho)]
  have hlive : (Owner.held .live : Owner ι) ≠ .held .doomed := held_ne (by decide)
  have hremoved : Kind.removed ≠ .doomed := by decide
  have htaken : Kind.taken ≠ .doomed := by decide
  refine ⟨Iff.rfl, ?_, ?_, fun a => ⟨fun ha => ?_, fun ha => hkeep ha fresh_ne⟩,
    fun a ha => hnext a (hne ha fresh_ne), fun _ a ha => ?_,
    fun _ a ha => ha.imp (fun ha => hkeep ha (held_ne (by decide)))
      fun ha => hkeep ha (held_ne (by decide)),
    fun _ a ha => ⟨hkeep ha hlive, hnext a (hne ha hlive)⟩, fun _ a ha halive => ?_,
    fun _ => ⟨hlist _ hremoved, fun a ha => hnext a (hne (hagree.own ha) (held_ne hremoved))⟩,
    fun hj => ⟨⟨hlist _ htaken,
      fun a ha => hnext a (hne (hagree.own ha) (held_ne htaken))⟩, ?_⟩⟩
  · rw [hrem]
  · rw [hrec]
  · rcases eq_or_ne a n with rfl | han
    · rw [Ghost.own_assign_self] at ha
      rcases hnew with rfl | rfl
      · cases ha
      · injection ha with ha
        injection ha with ha
        exact absurd ha.symm hij
    · rwa [Ghost.own_assign_of_ne han] at ha
  · obtain ⟨k, hk, hak⟩ := ha
    exact ⟨k, hk, hkeep hak (held_ne hk)⟩
  · rcases eq_or_ne a n with rfl | han
    · rw [Ghost.own_assign_self] at halive
      rcases hnew with rfl | rfl
      · cases halive
      · exact absurd (Option.some.inj halive) fresh_ne
    · rwa [Ghost.own_assign_of_ne han] at halive
  · -- the list of doomed nodes is that of the reclaiming thread
    rcases hold with hold | ⟨-, hrec'⟩
    · refine ⟨hagree.nodes_assign fun hc => ?_, fun a ha => hnext a ?_⟩
      · rw [hold] at hc
        cases hc
      · rintro rfl
        have := hagree.own ha
        rw [hold] at this
        cases this
    · exact absurd hj (some_ne_of_ne hij hrec')

end Moves

end Aoo.LockFree
