import Aoo.LockFree.Ownership

/-!
# What each atomic operation of a `concurrent_list` keeps

One lemma for each operation that writes: the state of the list stays `Shared` while nodes are
constructed, published, unlinked, moved to the free list, taken from it, put back and destroyed. The
argument is about lists of nodes alone; `Lib.Linked` says what an assignment does to the list,
and the owners say which assignments a list does not notice.
-/

namespace Aoo.LockFree

open Lib

variable {ι α : Type} {i : ι} {g g' : ConcurrentList ι α} {c : Ghost ι} {n m : Addr}
  {o : Owner ι} {k : Kind} {as : List Addr}

/-! ## Visible nodes -/

/-- What is in a list can be seen, unless it is about to be destroyed. -/
theorem visible_of_own (hk : k ≠ .doomed) {a : Addr} (ha : c.own a = some (.held k)) :
    Visible c a := ⟨k, hk, ha⟩

/-- Other nodes cannot. -/
theorem not_visible_of_own {a : Addr} (ha : c.own a = some o) (ho : ∀ k, k ≠ .doomed → o ≠ .held k) :
    ¬ Visible c a := by
  rintro ⟨k, hk, hak⟩
  exact ho k hk (Option.some.inj (ha.symm.trans hak))

/-- Moved nodes can be seen where they are now. -/
theorem visible_move (hk : k ≠ .doomed) {a : Addr} :
    Visible (c.move as k) a ↔ a ∈ as ∨ Visible c a := by
  by_cases hmem : a ∈ as
  · exact iff_of_true ⟨k, hk, Ghost.own_move_of_mem hmem⟩ (Or.inl hmem)
  · rw [or_iff_right hmem]
    unfold Visible
    rw [Ghost.own_move_of_not_mem hmem]

/-- Doomed nodes cannot be seen any more. -/
theorem visible_doom {a : Addr} : Visible (c.move as .doomed) a ↔ a ∉ as ∧ Visible c a := by
  by_cases hmem : a ∈ as
  · refine iff_of_false ?_ fun h => h.1 hmem
    refine not_visible_of_own (Ghost.own_move_of_mem hmem) fun k hk => held_ne hk.symm
  · rw [and_iff_right hmem]
    unfold Visible
    rw [Ghost.own_move_of_not_mem hmem]

/-- A node is retired when it goes to the free list, or is taken from there. -/
theorem retired_move (hk : k = .free ∨ k = .taken) {a : Addr} :
    Retired (c.move as k) a ↔ a ∈ as ∨ Retired c a := by
  unfold Retired
  by_cases hmem : a ∈ as
  · rw [Ghost.own_move_of_mem hmem]
    refine iff_of_true ?_ (Or.inl hmem)
    rcases hk with rfl | rfl
    · exact Or.inl rfl
    · exact Or.inr rfl
  · rw [Ghost.own_move_of_not_mem hmem, or_iff_right hmem]

/-- Nodes that go to another kind are not retired afterwards. -/
theorem retired_leave (hk : k ≠ .free ∧ k ≠ .taken) {a : Addr} :
    Retired (c.move as k) a ↔ a ∉ as ∧ Retired c a := by
  unfold Retired
  by_cases hmem : a ∈ as
  · rw [Ghost.own_move_of_mem hmem]
    refine iff_of_false ?_ fun h => h.1 hmem
    rintro (h | h)
    · exact held_ne hk.1 (Option.some.inj h)
    · exact held_ne hk.2 (Option.some.inj h)
  · rw [Ghost.own_move_of_not_mem hmem, and_iff_right hmem]

/-- A new node is not retired. -/
theorem retired_assign {o' : Option (Owner ι)} (ho : ∀ k, o' ≠ some (.held k))
    (hn : ¬ Retired c n) {a : Addr} : Retired (c.assign n o') a ↔ Retired c a := by
  rcases eq_or_ne a n with rfl | hne
  · refine iff_of_false ?_ hn
    unfold Retired
    rw [Ghost.own_assign_self]
    rintro (h | h)
    · exact ho _ h
    · exact ho _ h
  · unfold Retired
    rw [Ghost.own_assign_of_ne hne]

/-- Neither is a node that is somewhere else. -/
theorem not_retired {a : Addr} (ha : c.own a = some o) (hfree : o ≠ .held .free)
    (htaken : o ≠ .held .taken) : ¬ Retired c a := by
  rintro (h | h)
  · exact hfree (Option.some.inj (ha.symm.trans h))
  · exact htaken (Option.some.inj (ha.symm.trans h))

/-- A node in no list is seen by nobody. -/
theorem visible_assign {o' : Option (Owner ι)} (ho : ∀ k, o' ≠ some (.held k))
    (hn : ¬ Visible c n) {a : Addr} : Visible (c.assign n o') a ↔ Visible c a := by
  rcases eq_or_ne a n with rfl | hne
  · refine iff_of_false ?_ hn
    rintro ⟨k, -, hk⟩
    rw [Ghost.own_assign_self] at hk
    exact ho k hk
  · unfold Visible
    rw [Ghost.own_assign_of_ne hne]

namespace Shared

/-- The head can be seen. -/
theorem visible_head (h : Shared g c) {a : Addr} (ha : g.head = some a) : Visible c a := by
  have hhead := h.head
  rw [ha] at hhead
  cases hlist : c.nodes .live with
  | nil =>
    rw [hlist] at hhead
    cases hhead
  | cons b bs =>
    rw [hlist] at hhead
    obtain rfl : a = b := Option.some.inj hhead.1
    refine visible_of_own (k := Kind.live) (by decide) (h.agree.own ?_)
    rw [hlist]
    exact List.mem_cons_self ..

/-- The first node of the list. -/
theorem head_eq (h : Shared g c) {a : Addr} (ha : g.head = some a) :
    ∃ as, c.nodes .live = a :: as ∧ Linked g.next (g.next a) as := by
  have hhead := h.head
  rw [ha] at hhead
  cases hlist : c.nodes .live with
  | nil =>
    rw [hlist] at hhead
    cases hhead
  | cons b bs =>
    rw [hlist] at hhead
    obtain rfl : a = b := Option.some.inj hhead.1
    exact ⟨bs, rfl, hhead.2⟩

/-- The head is a live node. -/
theorem head_own (h : Shared g c) {a : Addr} (ha : g.head = some a) :
    c.own a = some (.held .live) := by
  have hhead := h.head
  rw [ha] at hhead
  exact h.agree.own hhead.first_mem

/-- The free list begins with a free node. -/
theorem free_own (h : Shared g c) {a : Addr} (ha : g.free = some a) :
    c.own a = some (.held .free) := by
  have hfree := h.free
  rw [ha] at hfree
  exact h.agree.own hfree.first_mem

/-- The node behind one in the list. -/
theorem next_live (h : Shared g c) (hn : c.own n = some (.held .live)) (hm : g.next n = some m) :
    c.own m = some (.held .live) :=
  h.agree.own (h.head.next_mem (h.agree.mem hn) hm)

/-- No live node is its own successor. -/
theorem next_ne_self (h : Shared g c) (hn : c.own n = some (.held .live)) : g.next n ≠ some n := by
  intro hnext
  have hhead := h.head
  have hnodup := h.agree.nodup .live
  obtain ⟨pre, post, hlist⟩ := List.append_of_mem (h.agree.mem hn)
  rw [hlist] at hhead hnodup
  have hrest := hhead.behind pre
  rw [hnext] at hrest
  cases post with
  | nil => cases hrest
  | cons b post =>
    obtain rfl : n = b := Option.some.inj hrest.1
    exact (List.nodup_cons.mp (List.nodup_append.mp hnodup).2.1).1 (List.mem_cons_self ..)

/-- Published nodes can be read. -/
theorem isSome_of_own (h : Shared g c) (hn : c.own n = some o) : (g.data n).isSome = true := by
  rw [h.constructed, hn]
  rfl

/-- What can be seen is constructed. -/
theorem isSome_of_visible (h : Shared g c) (hn : Visible c n) : (g.data n).isSome = true := by
  obtain ⟨k, -, hk⟩ := hn
  exact h.isSome_of_own hk

/-! ## Roles and readers -/

/-- A thread takes or gives up a role. -/
theorem roles (h : Shared g c) {r r' : Option ι} (hrem : ∀ j, r = some j → j ∈ c.holders)
    (hidle : r = none → c.nodes .removed = [])
    (hidle' : r' = none → c.nodes .taken = [] ∧ c.nodes .doomed = []) :
    Shared { g with remover := r, reclaimer := r' } c :=
  { h with removerHolds := hrem, idleRemover := hidle, idleReclaimer := hidle' }

variable [DecidableEq ι]

/-- One more reader. -/
theorem lock (h : Shared g c) (hi : i ∉ c.holders) :
    Shared { g with refcount := g.refcount + 1 } { c with holders := insert i c.holders } where
  constructed := h.constructed
  agree := h.agree
  head := h.head
  free := h.free
  closed := h.closed
  retired := h.retired
  refcount := by
    show g.refcount + 1 = BitVec.ofNat 32 (insert i c.holders).card
    rw [Finset.card_insert_of_notMem hi, BitVec.ofNat_add, ← h.refcount]
    rfl
  removerHolds j hj := Finset.mem_insert_of_mem (h.removerHolds j hj)
  idleRemover := h.idleRemover
  idleReclaimer := h.idleReclaimer

/-- One reader less. -/
theorem unlock (h : Shared g c) (hi : i ∈ c.holders) (hrem : g.remover ≠ some i) :
    Shared { g with refcount := g.refcount - 1 } { c with holders := c.holders.erase i } where
  constructed := h.constructed
  agree := h.agree
  head := h.head
  free := h.free
  closed := h.closed
  retired := h.retired
  refcount := by
    show g.refcount - 1 = BitVec.ofNat 32 (c.holders.erase i).card
    have hcard : c.holders.card = (c.holders.erase i).card + 1 :=
      (Finset.card_erase_add_one hi).symm
    rw [h.refcount, hcard, BitVec.ofNat_add]
    exact BitVec.add_sub_cancel _ _
  removerHolds j hj := by
    refine Finset.mem_erase.mpr ⟨?_, h.removerHolds j hj⟩
    rintro rfl
    exact hrem hj
  idleRemover := h.idleRemover
  idleReclaimer := h.idleReclaimer

omit [DecidableEq ι]

/-! ## Nodes -/

/-- The allocator has returned `n`. -/
theorem construct (h : Shared g c) {v : α} (hg : g.construct n v = .ok g') :
    c.own n = none ∧ Shared g' (c.assign n (some (.fresh i))) := by
  unfold ConcurrentList.construct at hg
  split at hg
  next => cases hg
  next hn =>
    injection hg with hg
    subst hg
    have hown : c.own n = none := by
      rw [h.constructed, Option.not_isSome_iff_eq_none] at hn
      exact hn
    have ho : ∀ k : Kind, some (Owner.fresh i) ≠ some (.held k) :=
      fun k hc => fresh_ne (Option.some.inj hc)
    have hnot : ¬ Visible c n := by
      rintro ⟨k, -, hk⟩
      rw [hown] at hk
      cases hk
    have hlist : ∀ k, (c.assign n (some (.fresh i))).nodes k = c.nodes k := by
      intro k
      refine h.agree.nodes_assign ?_
      rw [hown]
      exact (Option.some_ne_none _).symm
    have hnotmem : ∀ k, n ∉ c.nodes k := by
      intro k hmem
      have := h.agree.own hmem
      rw [hown] at this
      cases this
    have hnext : ∀ a b, a ≠ n → Function.update g.next n none a = some b → g.next a = some b := by
      intro a b hne hab
      rwa [Function.update_of_ne hne] at hab
    refine ⟨hown, ?_, h.agree.assign ho, ?_, ?_, fun a b ha hab => ?_, fun a b ha hab => ?_,
      h.refcount, h.removerHolds, ?_, ?_⟩
    · intro a
      rcases eq_or_ne a n with rfl | hne
      · rw [Ghost.own_assign_self]
        refine iff_of_true ?_ rfl
        show (Function.update g.data a (some v) a).isSome = true
        rw [Function.update_self]
        rfl
      · rw [Ghost.own_assign_of_ne hne, ← h.constructed]
        show ((Function.update g.data n (some v)) a).isSome = true ↔ _
        rw [Function.update_of_ne hne]
    · rw [hlist]
      exact h.head.outside (hnotmem _)
    · rw [hlist]
      exact h.free.outside (hnotmem _)
    · rw [visible_assign ho hnot] at ha ⊢
      have hne : a ≠ n := by
        rintro rfl
        exact hnot ha
      exact h.closed a b ha (hnext a b hne hab)
    · have hnot' : ¬ Retired c n := fun hret => hnot hret.visible
      rw [retired_assign ho hnot'] at ha ⊢
      have hne : a ≠ n := by
        rintro rfl
        exact hnot' ha
      exact h.retired a b ha (hnext a b hne hab)
    · rw [hlist]
      exact h.idleRemover
    · rw [hlist, hlist]
      exact h.idleReclaimer

/-- A node that is in neither list is written. -/
theorem setNext (h : Shared g c) {p : Option Addr} (hown : c.own n = some o)
    (hlive : o ≠ .held .live) (hfree : o ≠ .held .free)
    (hp : Visible c n → ∀ b, p = some b → Visible c b)
    (hp' : Retired c n → ∀ b, p = some b → Retired c b) : Shared (g.setNext n p) c where
  constructed := h.constructed
  agree := h.agree
  head := h.head.outside fun hmem => hlive (Option.some.inj (hown.symm.trans (h.agree.own hmem)))
  free := h.free.outside fun hmem => hfree (Option.some.inj (hown.symm.trans (h.agree.own hmem)))
  closed a b ha hab := by
    have hab' : Function.update g.next n p a = some b := hab
    rcases eq_or_ne a n with rfl | hne
    · rw [Function.update_self] at hab'
      exact hp ha b hab'
    · rw [Function.update_of_ne hne] at hab'
      exact h.closed a b ha hab'
  retired a b ha hab := by
    have hab' : Function.update g.next n p a = some b := hab
    rcases eq_or_ne a n with rfl | hne
    · rw [Function.update_self] at hab'
      exact hp' ha b hab'
    · rw [Function.update_of_ne hne] at hab'
      exact h.retired a b ha hab'
  refcount := h.refcount
  removerHolds := h.removerHolds
  idleRemover := h.idleRemover
  idleReclaimer := h.idleReclaimer

/-- What all moves have in common. -/
theorem move (h : Shared g c) (hmoves : Moves i g c o k) (hnodup : as.Nodup)
    (hown : ∀ a ∈ as, c.own a = some o) (hdata : g'.data = g.data)
    (href : g'.refcount = g.refcount) (hrem : g'.remover = g.remover)
    (hrec : g'.reclaimer = g.reclaimer)
    (hhead : Linked g'.next g'.head ((c.move as k).nodes .live))
    (hfree : Linked g'.next g'.free ((c.move as k).nodes .free))
    (hclosed : ∀ a b, Visible (c.move as k) a → g'.next a = some b → Visible (c.move as k) b)
    (hretired : ∀ a b, Retired (c.move as k) a → g'.next a = some b → Retired (c.move as k) b) :
    Shared g' (c.move as k) where
  constructed a := by
    rw [hdata, h.constructed]
    by_cases hmem : a ∈ as
    · rw [Ghost.own_move_of_mem hmem, hown a hmem]
      exact iff_of_true rfl rfl
    · rw [Ghost.own_move_of_not_mem hmem]
  agree := h.agree.move hnodup fun a ha hc =>
    hmoves.ne (Option.some.inj ((hown a ha).symm.trans hc))
  head := hhead
  free := hfree
  closed := hclosed
  retired := hretired
  refcount := href.trans h.refcount
  removerHolds := hrem ▸ h.removerHolds
  idleRemover hnone := by
    rw [hrem] at hnone
    have hne : Kind.removed ≠ k := by
      rintro rfl
      cases hmoves with
      | unlink hi => exact absurd (hnone.symm.trans hi) (Option.some_ne_none i).symm
    rw [Ghost.nodes_move_of_ne hne, h.idleRemover hnone]
    rfl
  idleReclaimer hnone := by
    rw [hrec] at hnone
    have hne : Kind.taken ≠ k ∧ Kind.doomed ≠ k := by
      refine ⟨?_, ?_⟩
      all_goals
        rintro rfl
        cases hmoves
        exact absurd (hnone.symm.trans ‹_›) (Option.some_ne_none i).symm
    rw [Ghost.nodes_move_of_ne hne.1, Ghost.nodes_move_of_ne hne.2, (h.idleReclaimer hnone).1,
      (h.idleReclaimer hnone).2]
    exact ⟨rfl, rfl⟩

/-- From what can be seen one only comes to what can be seen. -/
theorem closed_move (h : Shared g c) (hk : k ≠ .doomed) (hvis : ∀ a ∈ as, Visible c a) {a b : Addr}
    (ha : Visible (c.move as k) a) (hab : g.next a = some b) : Visible (c.move as k) b := by
  rw [visible_move hk] at ha ⊢
  refine Or.inr (h.closed a b ?_ hab)
  rcases ha with ha | ha
  · exact hvis a ha
  · exact ha

/-- Retired nodes are not moved, and what they point to neither. -/
theorem retired_move_of_not (h : Shared g c) (hk : k ≠ .free ∧ k ≠ .taken)
    (hown : ∀ a ∈ as, c.own a = some o) (hfree : o ≠ .held .free) (htaken : o ≠ .held .taken)
    {a b : Addr} (ha : Retired (c.move as k) a) (hab : g.next a = some b) :
    Retired (c.move as k) b := by
  rw [retired_leave hk] at ha ⊢
  have hb := h.retired a b ha.2 hab
  exact ⟨fun hmem => not_retired (hown b hmem) hfree htaken hb, hb⟩

/-- A list of another kind. -/
theorem nodes_move (h : Shared g c) (hown : ∀ a ∈ as, c.own a = some o)
    {k' : Kind} (hk : k' ≠ k) (ho : o ≠ .held k') : (c.move as k).nodes k' = c.nodes k' :=
  h.agree.nodes_move hk fun a ha hc => ho (Option.some.inj ((hown a ha).symm.trans hc))

theorem eq_of_mem_singleton {a : Addr} (hn : c.own n = some o) (ha : a ∈ [n]) :
    c.own a = some o := by
  rw [List.mem_singleton.mp ha]
  exact hn

/-- The compare-exchange of `emplace_front`. -/
theorem publish (h : Shared g c) (hn : c.own n = some (.fresh i)) (hnext : g.next n = g.head) :
    Shared { g with head := some n } (c.move [n] .live) := by
  have hown := fun a (ha : a ∈ [n]) => eq_of_mem_singleton hn ha
  refine h.move .publish (List.nodup_singleton n) hown rfl rfl rfl rfl ?_ ?_
    (fun a b ha hab => ?_) fun a b => h.retired_move_of_not (by decide) hown fresh_ne fresh_ne
  · rw [Ghost.nodes_move_self]
    refine ⟨rfl, ?_⟩
    show Linked g.next (g.next n) (c.nodes .live)
    rw [hnext]
    exact h.head
  · rw [h.nodes_move hown (by decide) fresh_ne]
    exact h.free
  · rw [visible_move (by decide)] at ha ⊢
    rcases ha with ha | ha
    · rw [List.mem_singleton.mp ha] at hab
      exact Or.inr (h.visible_head (hnext ▸ hab))
    · exact Or.inr (h.closed a b ha hab)

/-- The compare-exchange of `erase`. -/
theorem unlinkHead (h : Shared g c) (hrem : g.remover = some i) (hn : g.head = some n) :
    Shared { g with head := g.next n } (c.move [n] .removed) := by
  obtain ⟨as, hlist, hlinked⟩ := h.head_eq hn
  have hlive := h.head_own hn
  have hown := fun a (ha : a ∈ [n]) => eq_of_mem_singleton hlive ha
  refine h.move (.unlink hrem) (List.nodup_singleton n) hown rfl rfl rfl rfl ?_ ?_
    (fun a b ha hab => ?_) fun a b =>
      h.retired_move_of_not (by decide) hown (held_ne (by decide)) (held_ne (by decide))
  · have hsplit : c.nodes .live = [] ++ n :: as := hlist
    rw [h.agree.nodes_move_one (by decide) hsplit]
    exact hlinked
  · rw [h.nodes_move hown (by decide) (held_ne (by decide))]
    exact h.free
  · refine h.closed_move (by decide) (fun a ha => ?_) ha hab
    exact visible_of_own (by decide) (hown a ha)

/-- `erase` takes out `m`, which is behind `n`. -/
theorem unlink (h : Shared g c) (hrem : g.remover = some i) (hn : c.own n = some (.held .live))
    (hnext : g.next n = some m) :
    Shared (g.setNext n (g.next m)) (c.move [m] .removed) := by
  have hm := h.next_live hn hnext
  have hown := fun a (ha : a ∈ [m]) => eq_of_mem_singleton hm ha
  obtain ⟨pre, post, hlist⟩ := List.append_of_mem (h.agree.mem hn)
  have hhead := h.head
  rw [hlist] at hhead
  have hrest := hhead.behind pre
  rw [hnext] at hrest
  have hnodup := h.agree.nodup .live
  cases post with
  | nil => cases hrest
  | cons b post =>
    obtain rfl : m = b := Option.some.inj hrest.1
    rw [hlist] at hnodup
    refine h.move (.unlink hrem) (List.nodup_singleton m) hown rfl rfl rfl rfl ?_ ?_
      (fun a b ha hab => ?_) fun a b ha hab => ?_
    · have hsplit : c.nodes .live = (pre ++ [n]) ++ m :: post := by
        rw [hlist, List.append_assoc, List.singleton_append]
      rw [h.agree.nodes_move_one (by decide) hsplit, List.append_assoc]
      exact hhead.unlink pre hnodup
    · -- the free list does not notice either
      rw [h.nodes_move hown (by decide) (held_ne (by decide))]
      refine h.free.outside fun hmem => ?_
      have := h.agree.own hmem
      rw [hn] at this
      exact held_ne (by decide) (Option.some.inj this)
    · have hmvis : Visible c m := visible_of_own (by decide) hm
      rw [visible_move (by decide)] at ha ⊢
      have ha' : Visible c a := ha.elim (fun ha => List.mem_singleton.mp ha ▸ hmvis) id
      have hab' : Function.update g.next n (g.next m) a = some b := hab
      rcases eq_or_ne a n with rfl | hne
      · rw [Function.update_self] at hab'
        exact Or.inr (h.closed m b hmvis hab')
      · rw [Function.update_of_ne hne] at hab'
        exact Or.inr (h.closed a b ha' hab')
    · have hne : a ≠ n := by
        rintro rfl
        rw [retired_leave (by decide)] at ha
        exact not_retired hn (held_ne (by decide)) (held_ne (by decide)) ha.2
      have hab' : Function.update g.next n (g.next m) a = some b := hab
      rw [Function.update_of_ne hne] at hab'
      exact h.retired_move_of_not (by decide) hown (held_ne (by decide)) (held_ne (by decide)) ha hab'

/-- `clear` takes the whole list. -/
theorem clear (h : Shared g c) (hrem : g.remover = some i) :
    Shared { g with head := none } (c.move (c.nodes .live) .removed) := by
  have hown := fun a (ha : a ∈ c.nodes .live) => h.agree.own ha
  refine h.move (.unlink hrem) (h.agree.nodup _) hown rfl rfl rfl rfl ?_ ?_
    (fun a b ha hab => ?_) fun a b =>
      h.retired_move_of_not (by decide) hown (held_ne (by decide)) (held_ne (by decide))
  · rw [Ghost.nodes_move_all (by decide)]
    exact rfl
  · rw [h.nodes_move hown (by decide) (held_ne (by decide))]
    exact h.free
  · refine h.closed_move (by decide) (fun a ha => ?_) ha hab
    exact visible_of_own (by decide) (hown a ha)

/-- The nodes in somebody's hand are put in front of the free list. -/
theorem dispose (h : Shared g c) {k : Kind} {list : Addr} (hmoves : Moves i g c (.held k) .free)
    (hlinked : Linked g.next (some list) (c.nodes k ++ c.nodes .free)) :
    Shared { g with free := some list } (c.move (c.nodes k) .free) := by
  have hown := fun a (ha : a ∈ c.nodes k) => h.agree.own ha
  have hk : k ≠ .live ∧ k ≠ .doomed := by
    constructor
    all_goals
      rintro rfl
      cases hmoves
  refine h.move hmoves (h.agree.nodup k) hown rfl rfl rfl rfl ?_ ?_ (fun a b ha hab => ?_)
    fun a b ha hab => ?_
  · rw [h.nodes_move hown (by decide) (held_ne hk.1)]
    exact h.head
  · rw [Ghost.nodes_move_self]
    exact hlinked
  · refine h.closed_move (by decide) (fun a ha => ?_) ha hab
    exact visible_of_own hk.2 (hown a ha)
  · rw [retired_move (Or.inl rfl)] at ha ⊢
    have hcases : ∀ x, x ∈ c.nodes k ++ c.nodes .free → x ∈ c.nodes k ∨ Retired c x := fun x hx =>
      (List.mem_append.mp hx).imp id fun hx => Or.inl (h.agree.own hx)
    rcases ha with ha | ha
    · exact hcases b (hlinked.next_mem (List.mem_append_left _ ha) hab)
    · exact Or.inr (h.retired a b ha hab)

/-- `reclaim` takes the free list. -/
theorem take (h : Shared g c) (hrec : g.reclaimer = some i) :
    Shared { g with free := none } (c.move (c.nodes .free) .taken) := by
  have hown := fun a (ha : a ∈ c.nodes .free) => h.agree.own ha
  refine h.move (.take hrec) (h.agree.nodup _) hown rfl rfl rfl rfl ?_ ?_ (fun a b ha hab => ?_)
    fun a b ha hab => ?_
  · rw [h.nodes_move hown (by decide) (held_ne (by decide))]
    exact h.head
  · rw [Ghost.nodes_move_all (by decide)]
    exact rfl
  · refine h.closed_move (by decide) (fun a ha => ?_) ha hab
    exact visible_of_own (by decide) (hown a ha)
  · rw [retired_move (Or.inr rfl)] at ha ⊢
    refine Or.inr (h.retired a b ?_ hab)
    exact ha.elim (fun ha => Or.inl (hown a ha)) id

/-- **Nobody holds the list**: no node in the list or in the free list points to the nodes in the
hand of `reclaim`, and nobody else does. -/
theorem doom (h : Shared g c) (hrec : g.reclaimer = some i) (hnone : c.holders = ∅) :
    Shared g (c.move (c.nodes .taken) .doomed) := by
  have hown := fun a (ha : a ∈ c.nodes .taken) => h.agree.own ha
  have hrem : g.remover = none := by
    cases hr : g.remover with
    | none => rfl
    | some j =>
      have := h.removerHolds j hr
      rw [hnone] at this
      cases this
  refine h.move (.doom hrec hnone hrem) (h.agree.nodup _) hown rfl rfl rfl rfl ?_ ?_
    (fun a b ha hab => ?_) fun a b ha hab => ?_
  · rw [h.nodes_move hown (by decide) (held_ne (by decide))]
    exact h.head
  · rw [h.nodes_move hown (by decide) (held_ne (by decide))]
    exact h.free
  · rw [visible_doom] at ha ⊢
    obtain ⟨hntaken, k, hk, hak⟩ := ha
    -- what is left is linked within its own list
    have hsame : c.own b = some (.held k) := by
      cases k with
      | live => exact h.next_live hak hab
      | free => exact h.agree.own (h.free.next_mem (h.agree.mem hak) hab)
      | removed =>
        have := h.agree.mem hak
        rw [h.idleRemover hrem] at this
        cases this
      | taken => exact absurd (h.agree.mem hak) hntaken
      | doomed => exact absurd rfl hk
    refine ⟨fun hmem => hntaken ?_, k, hk, hsame⟩
    have hkind : k = .taken := by
      have := hown b hmem
      rw [hsame] at this
      exact Owner.held.inj (Option.some.inj this)
    exact h.agree.mem (hkind ▸ hak)
  · -- the retired nodes that are left are the free list
    rw [retired_leave (by decide)] at ha ⊢
    have hfree : c.own a = some (.held .free) :=
      ha.2.resolve_right fun htaken => ha.1 (h.agree.mem htaken)
    have hb := h.agree.own (h.free.next_mem (h.agree.mem hfree) hab)
    refine ⟨fun hmem => ?_, Or.inl hb⟩
    exact held_ne (by decide) (Option.some.inj (hb.symm.trans (hown b hmem)))

/-- `destroy_list` destroys one node. -/
theorem destroy (h : Shared g c) (hn : c.own n = some (.held .doomed))
    (hg : g.deallocate n = .ok g') : Shared g' (c.assign n none) := by
  unfold ConcurrentList.deallocate at hg
  rw [if_pos (h.isSome_of_own hn)] at hg
  injection hg with hg
  subst hg
  have ho : ∀ k : Kind, (none : Option (Owner ι)) ≠ some (.held k) :=
    fun k => (Option.some_ne_none _).symm
  have hnot : ¬ Visible c n := not_visible_of_own hn fun k hk => held_ne hk.symm
  have hlist : ∀ k, k ≠ .doomed → (c.assign n none).nodes k = c.nodes k := by
    intro k hk
    refine h.agree.nodes_assign fun hc => ?_
    rw [hn] at hc
    exact held_ne hk.symm (Option.some.inj hc)
  have hnot' : ¬ Retired c n := fun hret => hnot hret.visible
  refine ⟨?_, h.agree.assign ho, ?_, ?_, fun a b ha hab => ?_, fun a b ha hab => ?_, h.refcount,
    h.removerHolds, ?_, fun hnone => ?_⟩
  · intro a
    rcases eq_or_ne a n with rfl | hne
    · rw [Ghost.own_assign_self]
      refine iff_of_false ?_ Bool.false_ne_true
      show ¬ (Function.update g.data a none a).isSome = true
      rw [Function.update_self]
      exact Bool.false_ne_true
    · rw [Ghost.own_assign_of_ne hne, ← h.constructed]
      show ((Function.update g.data n none) a).isSome = true ↔ _
      rw [Function.update_of_ne hne]
  · rw [hlist _ (by decide)]
    exact h.head
  · rw [hlist _ (by decide)]
    exact h.free
  · rw [visible_assign ho hnot] at ha ⊢
    exact h.closed a b ha hab
  · rw [retired_assign ho hnot'] at ha ⊢
    exact h.retired a b ha hab
  · rw [hlist _ (by decide)]
    exact h.idleRemover
  · rw [hlist _ (by decide)]
    refine ⟨(h.idleReclaimer hnone).1, ?_⟩
    show (c.nodes .doomed).filter (· ≠ n) = []
    rw [(h.idleReclaimer hnone).2]
    rfl

end Shared

end Aoo.LockFree
