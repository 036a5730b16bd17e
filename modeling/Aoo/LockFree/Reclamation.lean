import Aoo.LockFree.Effects

/-!
# Reading and reclaiming a `concurrent_list`

What holds of each thread where it stands (`Ok`), that the other threads leave it alone
(`stable`), and that each step keeps it (`keeps`). With the rule for proof outlines this gives
the results about all interleavings: no thread uses a node that is not constructed, every node
has exactly one place and none is lost, and the list is the list that its operations say.
-/

namespace Aoo.LockFree

open Lib

variable {ι α : Type}

/-! ## Where a thread stands -/

namespace Pc

/-- The thread is counted by the reference count. -/
def holds : Pc → Bool
  | .unlocked | .reclaiming _ => false
  | _ => true

def removes : Pc → Bool
  | .erasing _ | .clearing _ => true
  | _ => false

def reclaims : Pc → Bool
  | .reclaiming _ => true
  | _ => false

end Pc

/-- The node that `emplace_front` has constructed. -/
def Emplace.node : Emplace → Addr
  | .load n | .store n _ | .cas n _ => n

def Pc.fresh : Pc → Option Addr
  | .emplacing e => some e.node
  | _ => none

def EmplaceOk (g : ConcurrentList ι α) : Emplace → Prop
  | .cas n next => g.next n = next
  | _ => True

/-- The nodes `as` are on their way to the free list. -/
def DisposeOk (g : ConcurrentList ι α) (c : Ghost ι) (as : List Addr) : Dispose → Prop
  | .walk list tail => Linked g.next (some list) as ∧ tail ∈ as
  | .load list tail => Hooked g.next list tail as
  | .store list tail head => Hooked g.next list tail as ∧ ∀ a, head = some a → Retired c a
  | .cas list tail head => Hooked g.next list tail as ∧ g.next tail = head

/-- All nodes behind `n`, up to the end of the list; `it` is one of them if it is in the list
at all. -/
def Ahead (g : ConcurrentList ι α) (c : Ghost ι) (it n : Addr) : Prop :=
  ∃ as, Linked g.next (g.next n) as ∧ (∀ a ∈ as, c.own a = some (.held .live)) ∧
    (c.own it = some (.held .live) → it ∈ as)

def EraseOk (g : ConcurrentList ι α) (c : Ghost ι) : Erase → Prop
  | .load it => Visible c it ∧ c.nodes .removed = []
  | .head n => c.own n = some (.held .live) ∧ c.nodes .removed = []
  | .cas n next => (c.own n = some (.held .live) ∧ g.next n = next) ∧ c.nodes .removed = []
  | .find it n =>
    (Visible c it ∧ c.own n = some (.held .live) ∧ Ahead g c it n) ∧ c.nodes .removed = []
  | .behind n m =>
    (c.own n = some (.held .live) ∧ g.next n = some m) ∧ c.nodes .removed = []
  | .unlink n m next =>
    (c.own n = some (.held .live) ∧ c.own m = some (.held .live) ∧ g.next n = some m ∧
      g.next m = next) ∧ c.nodes .removed = []
  | .dispose d next =>
    DisposeOk g c (c.nodes .removed) d ∧ ∀ a, next = some a → c.own a = some (.held .live)

def ReclaimOk (g : ConcurrentList ι α) (c : Ghost ι) : Reclaim → Prop
  | .loadRefcount | .exchange => c.nodes .taken = [] ∧ c.nodes .doomed = []
  | .cas f | .putBack f => Linked g.next (some f) (c.nodes .taken) ∧ c.nodes .doomed = []
  | .dispose d => DisposeOk g c (c.nodes .taken) d ∧ c.nodes .doomed = []
  | .destroy p => Linked g.next p (c.nodes .doomed) ∧ c.nodes .taken = []
  | .deallocate tmp p =>
    (∃ as, c.nodes .doomed = tmp :: as ∧ Linked g.next p as) ∧ c.nodes .taken = []

def PcOk (g : ConcurrentList ι α) (c : Ghost ι) : Pc → Prop
  | .unlocked | .ready => True
  | .emplacing e => EmplaceOk g e
  | .erasing e => EraseOk g c e
  | .clearing d => DisposeOk g c (c.nodes .removed) d
  | .reclaiming r => ReclaimOk g c r

/-- What holds of the thread `i` where it stands. -/
structure Ok (i : ι) (g : ConcurrentList ι α) (c : Ghost ι) (l : Local) : Prop where
  its : ∀ a ∈ l.its, Visible c a
  noIts : l.pc.holds = false → l.its = []
  holder : i ∈ c.holders ↔ l.pc.holds = true
  remover : g.remover = some i ↔ l.pc.removes = true
  reclaimer : g.reclaimer = some i ↔ l.pc.reclaims = true
  fresh : ∀ a, c.own a = some (.fresh i) ↔ l.pc.fresh = some a
  stage : PcOk g c l.pc

/-! ## The other threads leave it alone -/

section Stable

variable {i : ι} {g g' : ConcurrentList ι α} {c c' : Ghost ι}

theorem DisposeOk.congr {as : List Addr} {d : Dispose} (h : DisposeOk g c as d)
    (hnext : ∀ a ∈ as, g'.next a = g.next a) (hret : ∀ a, Retired c a → Retired c' a) :
    DisposeOk g' c' as d := by
  cases d with
  | walk list tail => exact ⟨h.1.congr hnext, h.2⟩
  | load list tail => exact Hooked.congr h hnext
  | store list tail head => exact ⟨h.1.congr hnext, fun a ha => hret a (h.2 a ha)⟩
  | cas list tail head =>
    refine ⟨h.1.congr hnext, (hnext tail ?_).trans h.2⟩
    obtain ⟨⟨bs, rfl⟩, -⟩ := h.1
    exact List.mem_append_right _ (List.mem_singleton_self tail)

theorem EraseOk.stable {e : Erase} (h : EraseOk g c e) (hrely : Rely i g c g' c')
    (hi : g.remover = some i) : EraseOk g' c' e := by
  have hlive := hrely.live hi
  have hvis := hrely.visible (Or.inr (Or.inl hi))
  obtain ⟨hlist, hnext⟩ := hrely.removed hi
  cases e with
  | load it => exact ⟨hvis it h.1, hlist.trans h.2⟩
  | head n => exact ⟨(hlive n h.1).1, hlist.trans h.2⟩
  | cas n next =>
    obtain ⟨hn, hnext'⟩ := hlive n h.1.1
    exact ⟨⟨hn, hnext'.trans h.1.2⟩, hlist.trans h.2⟩
  | find it n =>
    obtain ⟨⟨hit, hn, as, hlinked, has, hmem⟩, hempty⟩ := h
    refine ⟨⟨hvis it hit, (hlive n hn).1, as, ?_, fun a ha => (hlive a (has a ha)).1,
      fun hit' => hmem (hrely.notRevived hi it hit hit')⟩, hlist.trans hempty⟩
    rw [(hlive n hn).2]
    exact hlinked.congr fun a ha => (hlive a (has a ha)).2
  | behind n m =>
    obtain ⟨hn, hnext'⟩ := hlive n h.1.1
    exact ⟨⟨hn, hnext'.trans h.1.2⟩, hlist.trans h.2⟩
  | unlink n m next =>
    obtain ⟨⟨hn, hm, hnm, hmnext⟩, hempty⟩ := h
    refine ⟨⟨(hlive n hn).1, (hlive m hm).1, ?_, ?_⟩, hlist.trans hempty⟩
    · exact (hlive n hn).2.trans hnm
    · exact (hlive m hm).2.trans hmnext
  | dispose d next =>
    refine ⟨?_, fun a ha => (hlive a (h.2 a ha)).1⟩
    rw [hlist]
    exact h.1.congr hnext (hrely.retired (Or.inl hi))

theorem ReclaimOk.stable {r : Reclaim} (h : ReclaimOk g c r) (hrely : Rely i g c g' c')
    (hi : g.reclaimer = some i) : ReclaimOk g' c' r := by
  obtain ⟨⟨htaken, hnext⟩, hdoomed, hnextD⟩ := hrely.taken hi
  cases r with
  | loadRefcount => exact ⟨htaken.trans h.1, hdoomed.trans h.2⟩
  | exchange => exact ⟨htaken.trans h.1, hdoomed.trans h.2⟩
  | cas f =>
    refine ⟨?_, hdoomed.trans h.2⟩
    rw [htaken]
    exact h.1.congr hnext
  | putBack f =>
    refine ⟨?_, hdoomed.trans h.2⟩
    rw [htaken]
    exact h.1.congr hnext
  | dispose d =>
    refine ⟨?_, hdoomed.trans h.2⟩
    rw [htaken]
    exact h.1.congr hnext (hrely.retired (Or.inr hi))
  | destroy p =>
    refine ⟨?_, htaken.trans h.2⟩
    rw [hdoomed]
    exact h.1.congr hnextD
  | deallocate tmp p =>
    obtain ⟨⟨as, has, hlinked⟩, hempty⟩ := h
    refine ⟨⟨as, hdoomed.trans has, ?_⟩, htaken.trans hempty⟩
    rw [has] at hnextD
    exact hlinked.congr fun a ha => hnextD a (List.mem_cons_of_mem _ ha)

/-- **What a thread knows survives the steps of the others.** -/
theorem Ok.stable {l : Local} (h : Ok i g c l) (hrely : Rely i g c g' c') : Ok i g' c' l where
  its a ha := by
    have hholds : l.pc.holds = true := by
      by_contra hnot
      rw [h.noIts (Bool.eq_false_iff.mpr hnot)] at ha
      cases ha
    exact hrely.visible (Or.inl (h.holder.mpr hholds)) a (h.its a ha)
  noIts := h.noIts
  holder := hrely.holder.trans h.holder
  remover := hrely.remover.trans h.remover
  reclaimer := hrely.reclaimer.trans h.reclaimer
  fresh a := (hrely.fresh a).trans (h.fresh a)
  stage := by
    have hremover := h.remover
    have hreclaimer := h.reclaimer
    have hfresh := h.fresh
    have hstage := h.stage
    cases hpc : l.pc with
    | unlocked => exact trivial
    | ready => exact trivial
    | emplacing e =>
      rw [hpc] at hstage hfresh
      cases e with
      | cas n next => exact (hrely.freshNext n ((hfresh n).mpr rfl)).trans hstage
      | load n => exact trivial
      | store n next => exact trivial
    | erasing e =>
      rw [hpc] at hstage hremover
      exact EraseOk.stable hstage hrely (hremover.mpr rfl)
    | clearing d =>
      rw [hpc] at hstage hremover
      have hi := hremover.mpr rfl
      obtain ⟨hlist, hnext⟩ := hrely.removed hi
      show DisposeOk g' c' (c'.nodes .removed) d
      rw [hlist]
      exact DisposeOk.congr hstage hnext (hrely.retired (Or.inl hi))
    | reclaiming r =>
      rw [hpc] at hstage hreclaimer
      exact ReclaimOk.stable hstage hrely (hreclaimer.mpr rfl)

end Stable

/-! ## Each step keeps it -/

/-- What a step of the thread `i` has to show. -/
def Kept (i : ι) (g : ConcurrentList ι α) (c : Ghost ι) (r : ConcurrentList ι α × Local) : Prop :=
  ∃ c', Shared r.1 c' ∧ Ok i r.1 c' r.2 ∧ ∀ j, j ≠ i → Rely j g c r.1 c'

section Steps

variable {i : ι} {g g' : ConcurrentList ι α} {c : Ghost ι} {pc pc' : Pc} {its its' : List Addr}
  {spurious : Bool}

/-- A step inside a call: the thread goes on from `pc` to `pc'`. -/
structure SameRole (pc pc' : Pc) : Prop where
  holds : pc'.holds = pc.holds
  removes : pc'.removes = pc.removes
  reclaims : pc'.reclaims = pc.reclaims
  fresh : pc'.fresh = pc.fresh

/-- The list has not changed, or only links have. -/
theorem Ok.goto (h : Ok i g c ⟨pc, its⟩) (hpc : SameRole pc pc') (hrem : g'.remover = g.remover)
    (hrec : g'.reclaimer = g.reclaimer) (hits : ∀ a ∈ its', Visible c a)
    (hno : pc'.holds = false → its' = []) (hstage : PcOk g' c pc') : Ok i g' c ⟨pc', its'⟩ where
  its := hits
  noIts := hno
  holder := h.holder.trans (Bool.eq_iff_iff.mp hpc.holds).symm
  remover := hrem ▸ h.remover.trans (Bool.eq_iff_iff.mp hpc.removes).symm
  reclaimer := hrec ▸ h.reclaimer.trans (Bool.eq_iff_iff.mp hpc.reclaims).symm
  fresh a := by
    rw [h.fresh a]
    show pc.fresh = some a ↔ pc'.fresh = some a
    rw [hpc.fresh]
  stage := hstage

theorem kept_goto (hS : Shared g c) (h : Ok i g c ⟨pc, its⟩) (hpc : SameRole pc pc')
    (hits : ∀ a ∈ its', Visible c a) (hno : pc'.holds = false → its' = [])
    (hstage : PcOk g c pc') : Kept i g c (g, ⟨pc', its'⟩) :=
  ⟨c, hS, h.goto hpc rfl rfl hits hno hstage, fun j _ => Rely.refl j g c⟩

/-- The thread has moved nodes of its own from one list to another. -/
theorem Ok.moved {as : List Addr} {k k' : Kind} (h : Ok i g c ⟨pc, its⟩) (hpc : SameRole pc pc')
    (hk : k ≠ .doomed) (hown : ∀ a ∈ as, c.own a = some (.held k'))
    (hrem : g'.remover = g.remover) (hrec : g'.reclaimer = g.reclaimer)
    (hits : ∀ a ∈ its', Visible c a) (hno : pc'.holds = false → its' = [])
    (hstage : PcOk g' (c.move as k) pc') : Ok i g' (c.move as k) ⟨pc', its'⟩ where
  its a ha := (visible_move hk).mpr (Or.inr (hits a ha))
  noIts := hno
  holder := h.holder.trans (Bool.eq_iff_iff.mp hpc.holds).symm
  remover := hrem ▸ h.remover.trans (Bool.eq_iff_iff.mp hpc.removes).symm
  reclaimer := hrec ▸ h.reclaimer.trans (Bool.eq_iff_iff.mp hpc.reclaims).symm
  fresh a := by
    show _ ↔ pc'.fresh = some a
    rw [hpc.fresh]
    refine Iff.trans ?_ (h.fresh a)
    by_cases hmem : a ∈ as
    · rw [Ghost.own_move_of_mem hmem, hown a hmem]
      exact iff_of_false (fun hc => fresh_ne (Option.some.inj hc).symm)
        fun hc => fresh_ne (Option.some.inj hc).symm
    · rw [Ghost.own_move_of_not_mem hmem]
  stage := hstage

theorem loadNext_ok {n : Addr} {p : Option Addr} (h : g.loadNext n = .ok p) : p = g.next n := by
  unfold ConcurrentList.loadNext at h
  split at h
  · exact (Except.ok.inj h).symm
  · cases h

theorem storeNext_ok {n : Addr} {p : Option Addr} (h : g.storeNext n p = .ok g') :
    g' = g.setNext n p := by
  unfold ConcurrentList.storeNext at h
  split at h
  · exact (Except.ok.inj h).symm
  · cases h

/-! ### `emplace_front` -/

theorem kept_emplace {e : Emplace} (hS : Shared g c) (h : Ok i g c ⟨.emplacing e, its⟩)
    {r : ConcurrentList ι α × Local} (hact : act i (.go spurious) g ⟨.emplacing e, its⟩ = .ok r) :
    Kept i g c r := by
  obtain ⟨y, hstep, rfl⟩ := map_ok hact
  have hn : c.own e.node = some (.fresh i) := (h.fresh e.node).mpr rfl
  cases e with
  | load n =>
    obtain rfl := (Except.ok.inj hstep).symm
    exact kept_goto hS h ⟨rfl, rfl, rfl, rfl⟩ h.its (fun hc => Bool.noConfusion hc) trivial
  | store n next =>
    obtain ⟨g', hg, rfl⟩ := map_ok hstep
    obtain rfl := storeNext_ok hg
    have hother : ¬ Visible c n := not_visible_of_own hn fun _ _ => fresh_ne
    refine ⟨c, hS.setNext hn fresh_ne fresh_ne (fun hvis => absurd hvis hother)
      (fun hret => absurd hret.visible hother), ?_,
      fun j hj => rely_next hS.agree hj .fresh hn next⟩
    exact h.goto ⟨rfl, rfl, rfl, rfl⟩ rfl rfl h.its (fun hc => Bool.noConfusion hc)
      (Function.update_self ..)
  | cas n next =>
    rw [Emplace.step] at hstep
    split at hstep
    next hcas =>
      obtain rfl := (Except.ok.inj hstep).symm
      have hnext : g.next n = g.head := Eq.trans h.stage hcas.1.symm
      have hmove : ∀ j, j ≠ i → Rely j g c g (c.move [n] .live) := fun j hj =>
        rely_move hS.agree hj .publish fun a ha => Shared.eq_of_mem_singleton hn ha
      have hvis : ∀ a, Visible c a → Visible (c.move [n] .live) a := fun a ha =>
        (visible_move (by decide)).mpr (Or.inr ha)
      refine ⟨c.move [n] .live, hS.publish hn hnext, ?_, fun j hj => (hmove j hj).congr rfl rfl rfl⟩
      refine ⟨fun a ha => ?_, fun hc => Bool.noConfusion hc, h.holder, h.remover, h.reclaimer,
        fun a => ?_, trivial⟩
      · rcases List.mem_cons.mp ha with rfl | ha
        · exact (visible_move (by decide)).mpr (Or.inl (List.mem_singleton_self _))
        · exact hvis a (h.its a ha)
      · refine iff_of_false (fun hc => ?_) (Option.some_ne_none a).symm
        by_cases hmem : a ∈ [n]
        · rw [Ghost.own_move_of_mem hmem] at hc
          exact fresh_ne (Option.some.inj hc).symm
        · rw [Ghost.own_move_of_not_mem hmem, h.fresh a] at hc
          exact hmem (List.mem_singleton.mpr (Option.some.inj hc).symm)
    next =>
      obtain rfl := (Except.ok.inj hstep).symm
      exact kept_goto hS h ⟨rfl, rfl, rfl, rfl⟩ h.its (fun hc => Bool.noConfusion hc) trivial

/-! ### `dispose_node` and `dispose_list` -/

/-- One step of putting the nodes of the kind `k` in front of the free list. -/
theorem Dispose.step_ok {d : Dispose} {k : Kind} (hS : Shared g c)
    (hd : DisposeOk g c (c.nodes k) d) (hmoves : Moves i g c (.held k) .free)
    (hwrites : Writes i g (.held k)) {y : ConcurrentList ι α × (Dispose ⊕ Unit)}
    (hstep : d.step g spurious = .ok y) :
    (y.1.remover = g.remover ∧ y.1.reclaimer = g.reclaimer) ∧
    ((∃ d', y.2 = .inl d' ∧ Shared y.1 c ∧ DisposeOk y.1 c (c.nodes k) d' ∧
      ∀ j, j ≠ i → Rely j g c y.1 c) ∨
    (y.2 = .inr () ∧ Shared y.1 (c.move (c.nodes k) .free) ∧
      ∀ j, j ≠ i → Rely j g c y.1 (c.move (c.nodes k) .free))) := by
  have hrefl := fun j (_ : j ≠ i) => Rely.refl j g c
  have hk : k ≠ .doomed := by
    rintro rfl
    cases hmoves
  cases d with
  | walk list tail =>
    obtain ⟨p, hp, rfl⟩ := map_ok hstep
    obtain rfl := loadNext_ok hp
    cases hnext : g.next tail with
    | some n =>
      exact ⟨⟨rfl, rfl⟩, Or.inl ⟨_, rfl, hS, ⟨hd.1, hd.1.next_mem hd.2 hnext⟩, hrefl⟩⟩
    | none => exact ⟨⟨rfl, rfl⟩, Or.inl ⟨_, rfl, hS, hd.1.hooked hd.2 hnext, hrefl⟩⟩
  | load list tail =>
    obtain rfl := (Except.ok.inj hstep).symm
    refine ⟨⟨rfl, rfl⟩, Or.inl ⟨_, rfl, hS, ⟨hd, fun a ha => ?_⟩, hrefl⟩⟩
    exact Or.inl (hS.free_own ha)
  | store list tail head =>
    obtain ⟨g', hg, rfl⟩ := map_ok hstep
    obtain rfl := storeNext_ok hg
    -- only the tail is written, and it is in neither list
    have htail : c.own tail = some (.held k) := by
      obtain ⟨⟨bs, hbs⟩, -⟩ := hd.1
      exact hS.agree.own (hbs ▸ List.mem_append_right _ (List.mem_singleton_self tail))
    have hother : k ≠ .live ∧ k ≠ .free := by
      constructor
      all_goals
        rintro rfl
        cases hmoves
    refine ⟨⟨rfl, rfl⟩, Or.inl ⟨_, rfl, ?_, ⟨hd.1.assign head, Function.update_self ..⟩, ?_⟩⟩
    · exact hS.setNext htail (held_ne hother.1) (held_ne hother.2)
        (fun _ b hb => (hd.2 b hb).visible) fun _ => hd.2
    · exact fun j hj => rely_next hS.agree hj hwrites htail head
  | cas list tail head =>
    rw [Dispose.step] at hstep
    split at hstep
    next hcas =>
      obtain rfl := (Except.ok.inj hstep).symm
      -- all nodes become free in this step
      refine ⟨⟨rfl, rfl⟩, Or.inr ⟨rfl, ?_, fun j hj => ?_⟩⟩
      · refine hS.dispose hmoves (hd.1.join (hS.agree.nodup k) ?_)
        rw [hd.2, ← hcas.1]
        exact hS.free
      · have hmove : Rely j g c g (c.move (c.nodes k) .free) :=
          rely_move hS.agree hj hmoves fun a ha => hS.agree.own ha
        exact hmove.congr rfl rfl rfl
    next =>
      obtain rfl := (Except.ok.inj hstep).symm
      refine ⟨⟨rfl, rfl⟩, Or.inl ⟨_, rfl, hS, ⟨hd.1, fun a ha => ?_⟩, hrefl⟩⟩
      exact Or.inl (hS.free_own ha)

/-- `dispose_node` or `dispose_list` is done, and the call with it: the thread is no longer the
one that removes. -/
theorem kept_disposed {g' : ConcurrentList ι α} (h : Ok i g c ⟨pc, its⟩)
    (hpc : pc.removes = true) (hholds : pc.holds = true) (hreclaims : pc.reclaims = false)
    (hfresh : pc.fresh = none) (hS' : Shared g' (c.move (c.nodes .removed) .free))
    (hrec : g'.reclaimer = g.reclaimer) (hrem : g'.remover = g.remover)
    (hrely : ∀ j, j ≠ i → Rely j g c g' (c.move (c.nodes .removed) .free))
    (hits : ∀ a ∈ its', Visible c a) : Kept i g c ({ g' with remover := none }, ⟨.ready, its'⟩) := by
  have hi : g.remover = some i := h.remover.mpr hpc
  refine ⟨_, hS'.roles (fun j hj => ?_) (fun _ => ?_) hS'.idleReclaimer, ?_, fun j hj =>
    (hrely j hj).trans (rely_roles hj (Or.inr ⟨?_, Or.inl rfl⟩) (Or.inl rfl))⟩
  · cases hj
  · exact Ghost.nodes_move_all (by decide)
  · refine ⟨fun a ha => (visible_move (by decide)).mpr (Or.inr (hits a ha)),
      fun hc => Bool.noConfusion hc, ?_, ?_, ?_, fun a => ?_, trivial⟩
    · exact h.holder.trans (iff_of_true hholds rfl)
    · exact iff_of_false (Option.some_ne_none i).symm Bool.false_ne_true
    · refine Iff.trans ?_ (h.reclaimer.trans (iff_of_false ?_ Bool.false_ne_true))
      · show g'.reclaimer = some i ↔ g.reclaimer = some i
        rw [hrec]
      · rw [hreclaims]
        exact Bool.false_ne_true
    · refine iff_of_false (fun hc => ?_) (Option.some_ne_none a).symm
      by_cases hmem : a ∈ c.nodes .removed
      · rw [Ghost.own_move_of_mem hmem] at hc
        exact fresh_ne (Option.some.inj hc).symm
      · rw [Ghost.own_move_of_not_mem hmem, h.fresh a] at hc
        exact absurd (hfresh.symm.trans hc) (Option.some_ne_none a).symm
  · exact Or.inr (hrem.trans hi)

theorem kept_clear {d : Dispose} (hS : Shared g c) (h : Ok i g c ⟨.clearing d, its⟩)
    {r : ConcurrentList ι α × Local} (hact : act i (.go spurious) g ⟨.clearing d, its⟩ = .ok r) :
    Kept i g c r := by
  obtain ⟨⟨g', y⟩, hstep, rfl⟩ := map_ok hact
  have hi : g.remover = some i := h.remover.mpr rfl
  obtain ⟨⟨hrem, hrec⟩, ⟨d', rfl, hS', hd', hrely⟩ | ⟨rfl, hS', hrely⟩⟩ :=
    Dispose.step_ok hS h.stage (.dispose hi) (.removed hi) hstep
  · refine ⟨c, hS', ?_, hrely⟩
    exact h.goto ⟨rfl, rfl, rfl, rfl⟩ hrem hrec h.its (fun hc => Bool.noConfusion hc) hd'
  · exact kept_disposed h rfl rfl rfl rfl hS' hrec hrem hrely h.its

/-! ### `erase` -/

theorem visible_live {p : Option Addr} (hp : ∀ a, p = some a → c.own a = some (.held .live))
    (hits : ∀ a ∈ its, Visible c a) : ∀ a ∈ p.toList ++ its, Visible c a := by
  intro a ha
  rcases List.mem_append.mp ha with ha | ha
  · exact visible_of_own (by decide) (hp a (Option.mem_toList.mp ha))
  · exact hits a ha

/-- `erase` has not found the node. -/
theorem kept_end {e : Erase} (hS : Shared g c) (h : Ok i g c ⟨.erasing e, its⟩)
    (hempty : c.nodes .removed = []) : Kept i g c ({ g with remover := none }, ⟨.ready, its⟩) := by
  have hi : g.remover = some i := h.remover.mpr rfl
  refine ⟨c, hS.roles (fun j hj => ?_) (fun _ => hempty) hS.idleReclaimer, ?_,
    fun j hj => rely_roles hj (Or.inr ⟨Or.inr hi, Or.inl rfl⟩) (Or.inl rfl)⟩
  · cases hj
  · exact ⟨h.its, fun hc => Bool.noConfusion hc, h.holder,
      iff_of_false (Option.some_ne_none i).symm Bool.false_ne_true, h.reclaimer, h.fresh, trivial⟩

/-- The node is unlinked, and is now in the hand of the thread. -/
theorem kept_unlinked {e : Erase} {m : Addr} {next : Option Addr}
    (h : Ok i g c ⟨.erasing e, its⟩) (hempty : c.nodes .removed = [])
    (hm : c.own m = some (.held .live)) (hS' : Shared g' (c.move [m] .removed))
    (hrem : g'.remover = g.remover) (hrec : g'.reclaimer = g.reclaimer)
    (hnext : ∀ a, next = some a → c.own a = some (.held .live) ∧ a ≠ m)
    (hrely : ∀ j, j ≠ i → Rely j g c g' (c.move [m] .removed)) :
    Kept i g c (g', ⟨.erasing (.dispose (disposeNode m) next), its⟩) := by
  refine ⟨_, hS', h.moved ⟨rfl, rfl, rfl, rfl⟩ (by decide)
    (fun a ha => Shared.eq_of_mem_singleton hm ha) hrem hrec h.its (fun hc => Bool.noConfusion hc)
    ⟨?_, fun a ha => ?_⟩, hrely⟩
  · show Hooked g'.next m m ((c.move [m] .removed).nodes .removed)
    rw [Ghost.nodes_move_self, hempty]
    exact hooked_self g'.next m
  · obtain ⟨hlive, hne⟩ := hnext a ha
    rwa [Ghost.own_move_of_not_mem fun hmem => hne (List.mem_singleton.mp hmem)]

theorem kept_erase {e : Erase} (hS : Shared g c) (h : Ok i g c ⟨.erasing e, its⟩)
    {r : ConcurrentList ι α × Local} (hact : act i (.go spurious) g ⟨.erasing e, its⟩ = .ok r) :
    Kept i g c r := by
  obtain ⟨⟨g', y⟩, hstep, rfl⟩ := map_ok hact
  have hi : g.remover = some i := h.remover.mpr rfl
  have hgo : ∀ {e' : Erase}, EraseOk g c e' → Kept i g c (g, ⟨.erasing e', its⟩) := fun he' =>
    kept_goto hS h ⟨rfl, rfl, rfl, rfl⟩ h.its (fun hc => Bool.noConfusion hc) he'
  have hstage : EraseOk g c e := h.stage
  cases e with
  | load it =>
    obtain ⟨hit, hempty⟩ := hstage
    rw [Erase.step] at hstep
    split at hstep
    next n hn =>
      obtain ⟨rfl, rfl⟩ := Prod.mk.inj (Except.ok.inj hstep)
      have hlive := hS.head_own hn
      show Kept i g c (g, ⟨.erasing (if n = it then .head n else .find it n), its⟩)
      split
      next => exact hgo ⟨hlive, hempty⟩
      next hne =>
        obtain ⟨as, hlist, hlinked⟩ := hS.head_eq hn
        refine hgo ⟨⟨hit, hlive, as, hlinked, fun a ha => ?_, fun hit' => ?_⟩, hempty⟩
        · exact hS.agree.own (hlist ▸ List.mem_cons_of_mem _ ha)
        · have hmem := hS.agree.mem hit'
          rw [hlist] at hmem
          exact (List.mem_cons.mp hmem).resolve_left (Ne.symm hne)
    next =>
      obtain ⟨rfl, rfl⟩ := Prod.mk.inj (Except.ok.inj hstep)
      exact kept_end hS h hempty
  | head n =>
    obtain ⟨p, hp, hy⟩ := map_ok hstep
    obtain rfl := loadNext_ok hp
    obtain ⟨rfl, rfl⟩ := Prod.mk.inj hy
    exact hgo ⟨⟨hstage.1, rfl⟩, hstage.2⟩
  | cas n next =>
    obtain ⟨⟨hn, rfl⟩, hempty⟩ := hstage
    rw [Erase.step] at hstep
    split at hstep
    next hhead =>
      obtain ⟨rfl, rfl⟩ := Prod.mk.inj (Except.ok.inj hstep)
      have hmove : ∀ j, j ≠ i → Rely j g c g (c.move [n] .removed) := fun j hj =>
        rely_move hS.agree hj (.unlink hi) fun a ha => Shared.eq_of_mem_singleton hn ha
      refine kept_unlinked h hempty hn (hS.unlinkHead hi hhead) rfl rfl (fun a ha => ?_)
        fun j hj => (hmove j hj).congr rfl rfl rfl
      refine ⟨hS.next_live hn ha, ?_⟩
      rintro rfl
      exact hS.next_ne_self hn ha
    next =>
      obtain ⟨rfl, rfl⟩ := Prod.mk.inj (Except.ok.inj hstep)
      exact hgo ⟨visible_of_own (by decide) hn, hempty⟩
  | find it n =>
    obtain ⟨⟨hit, hn, as, hlinked, has, hmem⟩, hempty⟩ := hstage
    obtain ⟨p, hp, hy⟩ := map_ok hstep
    obtain rfl := loadNext_ok hp
    cases hnext : g.next n with
    | none =>
      rw [hnext] at hy
      obtain ⟨rfl, rfl⟩ := Prod.mk.inj hy
      exact kept_end hS h hempty
    | some m =>
      rw [hnext] at hy
      obtain ⟨rfl, rfl⟩ := Prod.mk.inj hy
      have hm := hS.next_live hn hnext
      show Kept i g c (g, ⟨.erasing (if m = it then .behind n m else .find it m), its⟩)
      split
      next => exact hgo ⟨⟨hn, hnext⟩, hempty⟩
      next hne =>
        -- the node is not `m`, so it is behind `m`
        rw [hnext] at hlinked
        cases as with
        | nil => cases hlinked
        | cons b as =>
          obtain rfl : m = b := Option.some.inj hlinked.1
          refine hgo ⟨⟨hit, hm, as, hlinked.2, fun a ha => has a (List.mem_cons_of_mem _ ha),
            fun hit' => ?_⟩, hempty⟩
          exact (List.mem_cons.mp (hmem hit')).resolve_left (Ne.symm hne)
  | behind n m =>
    obtain ⟨⟨hn, hnm⟩, hempty⟩ := hstage
    obtain ⟨p, hp, hy⟩ := map_ok hstep
    obtain rfl := loadNext_ok hp
    obtain ⟨rfl, rfl⟩ := Prod.mk.inj hy
    exact hgo ⟨⟨hn, hS.next_live hn hnm, hnm, rfl⟩, hempty⟩
  | unlink n m next =>
    obtain ⟨⟨hn, hm, hnm, rfl⟩, hempty⟩ := hstage
    obtain ⟨g'', hg, hy⟩ := map_ok hstep
    obtain rfl := storeNext_ok hg
    obtain ⟨rfl, rfl⟩ := Prod.mk.inj hy
    have hmove : ∀ j, j ≠ i → Rely j g c (g.setNext n (g.next m)) (c.move [m] .removed) :=
      fun j hj => (rely_next hS.agree hj (.live hi) hn _).trans
        ((rely_move hS.agree hj (.unlink hi) fun a ha => Shared.eq_of_mem_singleton hm ha))
    refine kept_unlinked h hempty hm (hS.unlink hi hn hnm) rfl rfl (fun a ha => ?_) hmove
    refine ⟨hS.next_live hm ha, ?_⟩
    rintro rfl
    exact hS.next_ne_self hm ha
  | dispose d next =>
    obtain ⟨hd, hnext⟩ := hstage
    obtain ⟨⟨g'', y'⟩, hstep', hy⟩ := map_ok hstep
    obtain ⟨⟨hrem, hrec⟩, ⟨d', rfl, hS', hd', hrely⟩ | ⟨rfl, hS', hrely⟩⟩ :=
      Dispose.step_ok hS hd (.dispose hi) (.removed hi) hstep'
    · obtain ⟨rfl, rfl⟩ := Prod.mk.inj hy
      refine ⟨c, hS', ?_, hrely⟩
      exact h.goto ⟨rfl, rfl, rfl, rfl⟩ hrem hrec h.its (fun hc => Bool.noConfusion hc)
        ⟨hd', hnext⟩
    · obtain ⟨rfl, rfl⟩ := Prod.mk.inj hy
      exact kept_disposed h rfl rfl rfl rfl hS' hrec hrem hrely (visible_live hnext h.its)

/-! ### `reclaim` -/

theorem Ok.its_nil {r : Reclaim} (h : Ok i g c ⟨.reclaiming r, its⟩) : its = [] := h.noIts rfl

/-- `reclaim` returns. -/
theorem kept_reclaimed {c' : Ghost ι} {r : Reclaim} (hS' : Shared g' c')
    (h' : Ok i g' c' ⟨.reclaiming r, its⟩)
    (hempty : c'.nodes .taken = [] ∧ c'.nodes .doomed = [])
    (hrely : ∀ j, j ≠ i → Rely j g c g' c') :
    Kept i g c ({ g' with reclaimer := none }, ⟨.unlocked, its⟩) := by
  have hi : g'.reclaimer = some i := h'.reclaimer.mpr rfl
  refine ⟨c', hS'.roles hS'.removerHolds hS'.idleRemover fun _ => hempty, ?_, fun j hj =>
    (hrely j hj).trans (rely_roles hj (Or.inl rfl) (Or.inr ⟨Or.inr hi, Or.inl rfl⟩))⟩
  exact ⟨h'.its, fun _ => h'.its_nil, h'.holder, h'.remover,
    iff_of_false (Option.some_ne_none i).symm Bool.false_ne_true, h'.fresh, trivial⟩

theorem eq_zero_of_card [Fintype ι] (hι : Fintype.card ι < 2 ^ 32) (hS : Shared g c)
    (hzero : g.refcount = 0) : c.holders = ∅ := by
  have hcard : c.holders.card < 2 ^ 32 := Nat.lt_of_le_of_lt (Finset.card_le_univ _) hι
  have hnat : c.holders.card % 2 ^ 32 = 0 := by
    have := congrArg BitVec.toNat (hS.refcount.symm.trans hzero)
    rw [BitVec.toNat_ofNat] at this
    exact this
  rw [Nat.mod_eq_of_lt hcard] at hnat
  exact Finset.card_eq_zero.mp hnat

/-- The nodes in the hand of `reclaim` are back in the free list. -/
theorem kept_putBack {e : Reclaim} (hS : Shared g c) (h : Ok i g c ⟨.reclaiming e, its⟩)
    (hdoomed : c.nodes .doomed = []) (hS' : Shared g' (c.move (c.nodes .taken) .free))
    (hrem : g'.remover = g.remover) (hrec : g'.reclaimer = g.reclaimer)
    (hrely : ∀ j, j ≠ i → Rely j g c g' (c.move (c.nodes .taken) .free)) :
    Kept i g c ({ g' with reclaimer := none }, ⟨.unlocked, its⟩) := by
  have hown := fun a (ha : a ∈ c.nodes .taken) => hS.agree.own ha
  have hempty : (c.move (c.nodes .taken) .free).nodes .taken = [] ∧
      (c.move (c.nodes .taken) .free).nodes .doomed = [] := by
    refine ⟨Ghost.nodes_move_all (by decide), ?_⟩
    rw [hS.nodes_move hown (by decide) (held_ne (by decide))]
    exact hdoomed
  have hOk : Ok i g' (c.move (c.nodes .taken) .free) ⟨.reclaiming .loadRefcount, its⟩ :=
    h.moved ⟨rfl, rfl, rfl, rfl⟩ (by decide) hown hrem hrec h.its (fun _ => h.its_nil) hempty
  exact kept_reclaimed hS' hOk hempty hrely

theorem kept_reclaim [Fintype ι] (hι : Fintype.card ι < 2 ^ 32) {e : Reclaim} (hS : Shared g c)
    (h : Ok i g c ⟨.reclaiming e, its⟩) {r : ConcurrentList ι α × Local}
    (hact : act i (.go spurious) g ⟨.reclaiming e, its⟩ = .ok r) : Kept i g c r := by
  obtain ⟨⟨g', y⟩, hstep, rfl⟩ := map_ok hact
  have hi : g.reclaimer = some i := h.reclaimer.mpr rfl
  have hits := h.its_nil
  have hrefl := fun j (_ : j ≠ i) => Rely.refl j g c
  have hgo : ∀ {e' : Reclaim}, ReclaimOk g c e' → Kept i g c (g, ⟨.reclaiming e', its⟩) :=
    fun he' => kept_goto hS h ⟨rfl, rfl, rfl, rfl⟩ h.its (fun _ => hits) he'
  have hstage : ReclaimOk g c e := h.stage
  cases e with
  | loadRefcount =>
    obtain ⟨rfl, rfl⟩ := Prod.mk.inj (Except.ok.inj hstep)
    by_cases hzero : g.refcount = 0
    · rw [if_pos hzero]
      exact hgo hstage
    · rw [if_neg hzero]
      exact kept_reclaimed hS h hstage hrefl
  | exchange =>
    rw [Reclaim.step] at hstep
    split at hstep
    next f hf =>
      obtain ⟨rfl, rfl⟩ := Prod.mk.inj (Except.ok.inj hstep)
      have hown := fun a (ha : a ∈ c.nodes .free) => hS.agree.own ha
      -- the nodes are taken off the free list, but readers may still be on them
      have hmove : ∀ j, j ≠ i → Rely j g c g (c.move (c.nodes .free) .taken) := fun j hj =>
        rely_move hS.agree hj (.take hi) hown
      refine ⟨_, hS.take hi, h.moved ⟨rfl, rfl, rfl, rfl⟩ (by decide) hown rfl rfl h.its
        (fun _ => hits) ⟨?_, ?_⟩, fun j hj => (hmove j hj).congr rfl rfl rfl⟩
      · rw [Ghost.nodes_move_self, hstage.1, List.append_nil, ← hf]
        exact hS.free
      · rw [hS.nodes_move hown (by decide) (held_ne (by decide))]
        exact hstage.2
    next =>
      obtain ⟨rfl, rfl⟩ := Prod.mk.inj (Except.ok.inj hstep)
      exact kept_reclaimed hS h hstage hrefl
  | cas f =>
    obtain ⟨rfl, rfl⟩ := Prod.mk.inj (Except.ok.inj hstep)
    by_cases hzero : g.refcount = 0
    · rw [if_pos hzero]
      -- with the count at zero no thread holds the list, so nobody is on these nodes
      have hnone := eq_zero_of_card hι hS hzero
      have hS' := hS.doom hi hnone
      have hown := fun a (ha : a ∈ c.nodes .taken) => hS.agree.own ha
      have hrem : g.remover = none := by
        cases hr : g.remover with
        | none => rfl
        | some j =>
          have := hS.removerHolds j hr
          rw [hnone] at this
          cases this
      refine ⟨_, hS', ?_, fun j hj => rely_move hS.agree hj (.doom hi hnone hrem) hown⟩
      refine ⟨fun a ha => ?_, fun _ => hits, h.holder, h.remover, h.reclaimer, fun a => ?_, ?_, ?_⟩
      · rw [hits] at ha
        cases ha
      · refine Iff.trans ?_ (h.fresh a)
        by_cases hmem : a ∈ c.nodes .taken
        · rw [Ghost.own_move_of_mem hmem, hown a hmem]
          exact iff_of_false (fun hc => fresh_ne (Option.some.inj hc).symm)
            fun hc => fresh_ne (Option.some.inj hc).symm
        · rw [Ghost.own_move_of_not_mem hmem]
      · rw [Ghost.nodes_move_self, hstage.2, List.append_nil]
        exact hstage.1
      · exact Ghost.nodes_move_all (by decide)
    · rw [if_neg hzero]
      exact hgo hstage
  | putBack f =>
    rw [Reclaim.step] at hstep
    split at hstep
    next hfree =>
      obtain ⟨rfl, rfl⟩ := Prod.mk.inj (Except.ok.inj hstep)
      have hown := fun a (ha : a ∈ c.nodes .taken) => hS.agree.own ha
      -- nothing was put on the free list in between
      have hnil : c.nodes .free = [] := by
        have hlinked := hS.free
        rw [hfree] at hlinked
        exact Linked.unique hlinked rfl
      have hmove : ∀ j, j ≠ i → Rely j g c g (c.move (c.nodes .taken) .free) := fun j hj =>
        rely_move hS.agree hj (.putBack hi) hown
      have hS' : Shared { g with free := some f } (c.move (c.nodes .taken) .free) := by
        refine hS.dispose (.putBack hi) ?_
        rw [hnil, List.append_nil]
        exact hstage.1
      exact kept_putBack hS h hstage.2 hS' rfl rfl fun j hj => (hmove j hj).congr rfl rfl rfl
    next =>
      obtain ⟨rfl, rfl⟩ := Prod.mk.inj (Except.ok.inj hstep)
      refine hgo ⟨⟨hstage.1, ?_⟩, hstage.2⟩
      cases hlist : c.nodes .taken with
      | nil =>
        have := hstage.1
        rw [hlist] at this
        cases this
      | cons a as =>
        have := hstage.1
        rw [hlist] at this
        obtain rfl : f = a := Option.some.inj this.1
        exact List.mem_cons_self ..
  | dispose d =>
    obtain ⟨hd, hdoomed⟩ := hstage
    obtain ⟨⟨g'', y'⟩, hstep', hy⟩ := map_ok hstep
    obtain ⟨⟨hrem, hrec⟩, ⟨d', rfl, hS', hd', hrely⟩ | ⟨rfl, hS', hrely⟩⟩ :=
      Dispose.step_ok hS hd (.putBack hi) (.taken hi) hstep'
    · obtain ⟨rfl, rfl⟩ := Prod.mk.inj hy
      refine ⟨c, hS', ?_, hrely⟩
      exact h.goto ⟨rfl, rfl, rfl, rfl⟩ hrem hrec h.its (fun _ => hits) ⟨hd', hdoomed⟩
    · obtain ⟨rfl, rfl⟩ := Prod.mk.inj hy
      exact kept_putBack hS h hdoomed hS' hrem hrec hrely
  | destroy p =>
    obtain ⟨hlinked, htaken⟩ := hstage
    cases p with
    | none =>
      obtain ⟨rfl, rfl⟩ := Prod.mk.inj (Except.ok.inj hstep)
      exact kept_reclaimed hS h ⟨htaken, Linked.unique hlinked rfl⟩ hrefl
    | some tmp =>
      obtain ⟨p, hp, hy⟩ := map_ok hstep
      obtain rfl := loadNext_ok hp
      obtain ⟨rfl, rfl⟩ := Prod.mk.inj hy
      cases hlist : c.nodes .doomed with
      | nil =>
        rw [hlist] at hlinked
        cases hlinked
      | cons a as =>
        rw [hlist] at hlinked
        obtain rfl : tmp = a := Option.some.inj hlinked.1
        exact hgo ⟨⟨as, hlist, hlinked.2⟩, htaken⟩
  | deallocate tmp p =>
    obtain ⟨⟨as, hlist, hlinked⟩, htaken⟩ := hstage
    obtain ⟨g'', hg, hy⟩ := map_ok hstep
    obtain ⟨rfl, rfl⟩ := Prod.mk.inj hy
    -- the node after `tmp` was read before `tmp` is destroyed
    have htmp : c.own tmp = some (.held .doomed) :=
      hS.agree.own (hlist ▸ List.mem_cons_self ..)
    have hS' := hS.destroy htmp hg
    have hg' : g'' = { g with data := Function.update g.data tmp none } := by
      unfold ConcurrentList.deallocate at hg
      rw [if_pos (hS.isSome_of_own htmp)] at hg
      exact (Except.ok.inj hg).symm
    subst hg'
    have hnodup := hS.agree.nodup .doomed
    rw [hlist, List.nodup_cons] at hnodup
    refine ⟨_, hS', ?_, fun j hj => rely_assign hS.agree hj (Or.inr ⟨htmp, hi⟩) (Or.inl rfl)
      (fun a _ => rfl) rfl rfl⟩
    refine ⟨fun a ha => ?_, fun _ => hits, h.holder, h.remover, h.reclaimer, fun a => ?_, ?_, ?_⟩
    · rw [hits] at ha
      cases ha
    · refine iff_of_false (fun hc => ?_) (Option.some_ne_none a).symm
      rcases eq_or_ne a tmp with rfl | hne
      · rw [Ghost.own_assign_self] at hc
        cases hc
      · rw [Ghost.own_assign_of_ne hne, h.fresh a] at hc
        cases hc
    · have hrest : (tmp :: as).filter (· ≠ tmp) = as := by
        rw [List.filter_cons_of_neg]
        · exact List.filter_eq_self.mpr fun a ha => decide_eq_true fun hc => hnodup.1 (hc ▸ ha)
        · exact fun hc => absurd rfl (of_decide_eq_true hc)
      show Linked g.next p ((c.nodes .doomed).filter (· ≠ tmp))
      rw [hlist, hrest]
      exact hlinked
    · show (c.nodes .taken).filter (· ≠ tmp) = []
      rw [htaken]
      rfl

end Steps

end Aoo.LockFree
