import Aoo.LockFree.Reclamation

/-!
# All interleavings of a `concurrent_list`

The calls between the steps of `Reclamation`, and what comes out for every run of any number of
threads below 2^32, in any order and with any addresses from the allocator:

* no thread uses a node that is not constructed (`list_safe`);
* every constructed node is in exactly one place, so that none is lost and none is destroyed
  twice (`list_owned`);
* the list is what its operations make of it, one after the other in the order of their
  linearization points (`list_linearizes`);
* what an iterator sees: the list, as long as its node is in it, and never again afterwards
  (`list_iterates`).
-/

namespace Aoo.LockFree

open Lib

variable {ι α : Type}

section Calls

variable {i : ι} {g : ConcurrentList ι α} {c : Ghost ι} {its : List Addr}

/-- `lock_shared` makes the thread a reader, and the count says so. -/
theorem kept_lock [DecidableEq ι] (hS : Shared g c) (h : Ok i g c ⟨.unlocked, its⟩) :
    Kept i g c ({ g with refcount := g.refcount + 1 }, ⟨.ready, its⟩) := by
  have hi : i ∉ c.holders := fun hc => Bool.noConfusion (h.holder.mp hc)
  refine ⟨_, hS.lock hi, ⟨h.its, fun hc => Bool.noConfusion hc, ?_, h.remover, h.reclaimer, h.fresh,
    trivial⟩, fun j hj => rely_holders ?_ _⟩
  · exact iff_of_true (Finset.mem_insert_self i _) rfl
  · rw [Finset.mem_insert]
    exact or_iff_right hj

/-- A thread that unlocks gives up its iterators. -/
theorem kept_unlock [DecidableEq ι] (hS : Shared g c) (h : Ok i g c ⟨.ready, its⟩) :
    Kept i g c ({ g with refcount := g.refcount - 1 }, ⟨.unlocked, []⟩) := by
  have hi : i ∈ c.holders := h.holder.mpr rfl
  have hrem : g.remover ≠ some i := fun hc => Bool.noConfusion (h.remover.mp hc)
  refine ⟨_, hS.unlock hi hrem, ⟨fun a ha => ?_, fun _ => rfl, ?_, h.remover, h.reclaimer, h.fresh,
    trivial⟩, fun j hj => rely_holders ?_ _⟩
  · cases ha
  · exact iff_of_false (Finset.notMem_erase i _) Bool.false_ne_true
  · rw [Finset.mem_erase]
    exact and_iff_right hj

/-- `emplace_front` constructs its node before anybody else can know of it. -/
theorem kept_construct {n : Addr} {v : α} {g' : ConcurrentList ι α} (hS : Shared g c)
    (h : Ok i g c ⟨.ready, its⟩) (hg : g.construct n v = .ok g') :
    Kept i g c (g', ⟨.emplacing (.load n), its⟩) := by
  obtain ⟨hown, hS'⟩ := hS.construct (i := i) hg
  have hg' : g' = { g with
      next := Function.update g.next n none
      data := Function.update g.data n (some v) } := by
    unfold ConcurrentList.construct at hg
    split at hg
    · cases hg
    · exact (Except.ok.inj hg).symm
  subst hg'
  -- the allocator has returned memory that nobody has, so no iterator is there
  have hnot : ¬ Visible c n := by
    rintro ⟨k, -, hk⟩
    rw [hown] at hk
    cases hk
  have ho : ∀ k : Kind, some (Owner.fresh i) ≠ some (.held k) :=
    fun k hc => fresh_ne (Option.some.inj hc)
  refine ⟨_, hS', ⟨fun a ha => (visible_assign ho hnot).mpr (h.its a ha),
    fun hc => Bool.noConfusion hc, h.holder, h.remover, h.reclaimer, fun a => ?_, trivial⟩,
    fun j hj => rely_assign hS.agree hj (Or.inl hown) (Or.inr rfl)
      (fun a ha => Function.update_of_ne ha ..) rfl rfl⟩
  rcases eq_or_ne a n with rfl | hne
  · rw [Ghost.own_assign_self]
    exact iff_of_true rfl rfl
  · rw [Ghost.own_assign_of_ne hne, h.fresh a]
    exact iff_of_false (Option.some_ne_none a).symm fun hc => hne (Option.some.inj hc).symm

/-- A thread becomes the one that removes. -/
theorem Shared.takeRole (hS : Shared g c) (h : Ok i g c ⟨.ready, its⟩) :
    Shared { g with remover := some i } c := by
  refine hS.roles (fun j hj => ?_) (fun hc => absurd hc (Option.some_ne_none i)) hS.idleReclaimer
  exact Option.some.inj hj ▸ h.holder.mpr rfl

/-- A thread that begins to erase is the one that removes. -/
theorem Ok.takeRole (h : Ok i g c ⟨.ready, its⟩) {e : Erase}
    (hstage : EraseOk { g with remover := some i } c e) :
    Ok i { g with remover := some i } c ⟨.erasing e, its⟩ :=
  ⟨h.its, fun hc => Bool.noConfusion hc, h.holder, iff_of_true rfl rfl, h.reclaimer, h.fresh, hstage⟩

/-- Nobody else was removing, so nobody else is disturbed. -/
theorem rely_takeRole {j : ι} (hj : j ≠ i) (hidle : g.remover = none) :
    Rely j g c { g with remover := some i } c :=
  rely_roles hj (Or.inr ⟨Or.inl hidle, Or.inr rfl⟩) (Or.inl rfl)

/-- The first step of a call keeps the invariant. -/
theorem kept_call {ch : Choice α} (hS : Shared g c) (h : Ok i g c ⟨.ready, its⟩)
    {r : ConcurrentList ι α × Local} (hact : call i g its ch = .ok r) : Kept i g c r := by
  have hready : SameRole .ready .ready := ⟨rfl, rfl, rfl, rfl⟩
  have hholds : Pc.ready.holds = false → ∀ {its' : List Addr}, its' = [] := fun hc => Bool.noConfusion hc
  have hstay : ∀ {its'}, (∀ a ∈ its', Visible c a) → Kept i g c (g, ⟨.ready, its'⟩) := fun hits =>
    kept_goto hS h hready hits (fun hc => hholds hc) trivial
  cases ch with
  | lock => cases hact
  | reclaim => cases hact
  | go spurious => cases hact
  | unlock =>
    classical
    obtain rfl := Except.ok.inj hact
    exact kept_unlock hS h
  | begin =>
    obtain rfl := Except.ok.inj hact
    exact hstay (visible_live (fun a ha => hS.head_own ha) h.its)
  | increment it =>
    rw [call] at hact
    split at hact
    next hit =>
      obtain ⟨p, hp, rfl⟩ := map_ok hact
      obtain rfl := loadNext_ok hp
      refine hstay fun a ha => ?_
      rcases List.mem_append.mp ha with ha | ha
      · exact hS.closed it a (h.its it hit) (Option.mem_toList.mp ha)
      · exact h.its a ha
    next => cases hact
  | dereference it =>
    rw [call] at hact
    split at hact
    next hit =>
      split at hact
      · obtain rfl := Except.ok.inj hact
        exact hstay h.its
      · cases hact
    next => cases hact
  | emplaceFront n v =>
    obtain ⟨g', hg, rfl⟩ := map_ok hact
    exact kept_construct hS h hg
  | erase it =>
    rw [call] at hact
    split at hact
    next hcond =>
      obtain rfl := Except.ok.inj hact
      have hidle := Option.isNone_iff_eq_none.mp hcond.2
      exact ⟨c, hS.takeRole h, h.takeRole ⟨h.its it hcond.1, hS.idleRemover hidle⟩,
        fun j hj => rely_takeRole hj hidle⟩
    next => cases hact
  | clear =>
    rw [call] at hact
    split at hact
    next hcond =>
      have hidle := Option.isNone_iff_eq_none.mp hcond
      have hempty := hS.idleRemover hidle
      split at hact
      next list hlist =>
        obtain rfl := Except.ok.inj hact
        have hown := fun a (ha : a ∈ c.nodes .live) => hS.agree.own ha
        have hS₁ := hS.takeRole h
        have hOk₁ : Ok i { g with remover := some i } c ⟨.erasing (.load list), its⟩ :=
          h.takeRole ⟨hS.visible_head hlist, hempty⟩
        -- the whole list is unlinked at once, and others may still be on its nodes
        have hmove : ∀ j, j ≠ i → Rely j { g with remover := some i } c
            { g with remover := some i } (c.move (c.nodes .live) .removed) := fun j hj =>
          rely_move hS.agree hj (.unlink rfl) hown
        refine ⟨_, hS₁.clear rfl, hOk₁.moved ⟨rfl, rfl, rfl, rfl⟩ (by decide) hown rfl rfl h.its
          (fun hc => Bool.noConfusion hc) ?_,
          fun j hj => (rely_takeRole hj hidle).trans ((hmove j hj).congr rfl rfl rfl)⟩
        show Linked g.next (some list) ((c.move (c.nodes .live) .removed).nodes .removed) ∧
          list ∈ (c.move (c.nodes .live) .removed).nodes .removed
        rw [Ghost.nodes_move_self, hempty, List.append_nil, ← hlist]
        refine ⟨hS.head, ?_⟩
        exact hS.agree.mem (hS.head_own hlist)
      next =>
        obtain rfl := Except.ok.inj hact
        exact hstay h.its
    next => cases hact

/-- So does the first step of `reclaim`. -/
theorem kept_startReclaim (hS : Shared g c) (h : Ok i g c ⟨.unlocked, its⟩)
    {r : ConcurrentList ι α × Local} (hact : act i .reclaim g ⟨.unlocked, its⟩ = .ok r) :
    Kept i g c r := by
  simp only [act] at hact
  split at hact
  next hidle =>
    have hnone := Option.isNone_iff_eq_none.mp hidle
    split at hact
    · obtain rfl := Except.ok.inj hact
      refine ⟨c, hS.roles hS.removerHolds hS.idleRemover fun hc => ?_, ⟨h.its, h.noIts, h.holder,
        h.remover, iff_of_true rfl rfl, h.fresh, hS.idleReclaimer hnone⟩, fun j hj =>
        rely_roles hj (Or.inl rfl) (Or.inr ⟨Or.inl hnone, Or.inr rfl⟩)⟩
      exact absurd hc (Option.some_ne_none i)
    · obtain rfl := Except.ok.inj hact
      exact ⟨c, hS, h, fun j _ => Rely.refl j g c⟩
  next => cases hact

end Calls

/-! ## The outline -/

/-- Every step of every thread keeps the invariant, the thread's own assertion and what the others
rely on. -/
theorem keeps [DecidableEq ι] [Fintype ι] (hι : Fintype.card ι < 2 ^ 32) :
    Threads.Keeps (act (ι := ι) (α := α)) Shared Ok Rely := by
  intro i ch g c l g' l' hS h hact
  obtain ⟨pc, its⟩ := l
  suffices hkept : Kept i g c (g', l') from hkept
  cases pc with
  | unlocked =>
    cases ch with
    | lock =>
      obtain ⟨rfl, rfl⟩ := Prod.mk.inj (Except.ok.inj hact)
      exact kept_lock hS h
    | reclaim => exact kept_startReclaim hS h hact
    | _ => cases hact
  | ready => exact kept_call hS h hact
  | emplacing e =>
    cases ch with
    | go spurious => exact kept_emplace hS h hact
    | _ => cases hact
  | erasing e =>
    cases ch with
    | go spurious => exact kept_erase hS h hact
    | _ => cases hact
  | clearing d =>
    cases ch with
    | go spurious => exact kept_clear hS h hact
    | _ => cases hact
  | reclaiming r =>
    cases ch with
    | go spurious => exact kept_reclaim hι hS h hact
    | _ => cases hact

/-- What a thread knows stays true whatever the others do. -/
theorem stable : Threads.Stable (Ok (ι := ι) (α := α)) Rely :=
  fun _ _ _ _ _ _ h hrely => h.stable hrely

/-- The list is empty and no thread has begun a call. -/
theorem start_sound : Threads.Sound Shared Ok (start ι α) := by
  refine ⟨{}, ⟨fun a => Iff.rfl, fun k => ⟨List.nodup_nil, fun a => ?_⟩, rfl, rfl,
    fun a b _ hab => ?_, fun a b _ hab => ?_, rfl, fun j hj => ?_, fun _ => rfl, fun _ => ⟨rfl, rfl⟩⟩,
    fun i => ⟨fun a ha => ?_, fun _ => rfl, ?_, ?_, ?_, fun a => ?_, trivial⟩⟩
  · exact iff_of_false List.not_mem_nil (Option.some_ne_none _).symm
  · cases hab
  · cases hab
  · cases hj
  · cases ha
  · exact iff_of_false (Finset.notMem_empty i) Bool.false_ne_true
  · exact iff_of_false (Option.some_ne_none i).symm Bool.false_ne_true
  · exact iff_of_false (Option.some_ne_none i).symm Bool.false_ne_true
  · exact iff_of_false (Option.some_ne_none _).symm (Option.some_ne_none a).symm

/-! ## No use after free -/

section Access

variable {i : ι} {g : ConcurrentList ι α} {c : Ghost ι} {its : List Addr} {spurious : Bool}

/-- `next_` can be read in a node that is constructed. -/
theorem loadNext_ne {n : Addr} (hn : (g.data n).isSome = true) : g.loadNext n ≠ .error .badAccess := by
  intro h
  rw [ConcurrentList.loadNext, if_pos hn] at h
  cases h

/-- `next_` can be written there as well. -/
theorem storeNext_ne {n : Addr} {p : Option Addr} (hn : (g.data n).isSome = true) :
    g.storeNext n p ≠ .error .badAccess := by
  intro h
  rw [ConcurrentList.storeNext, if_pos hn] at h
  cases h

/-- The nodes that go to the free list are constructed. -/
theorem Dispose.step_ne {d : Dispose} {k : Kind} (hS : Shared g c)
    (hd : DisposeOk g c (c.nodes k) d) : d.step g spurious ≠ .error .badAccess := by
  intro h
  have htail : ∀ {list tail : Addr}, Hooked g.next list tail (c.nodes k) →
      (g.data tail).isSome = true := by
    intro list tail hhooked
    obtain ⟨⟨bs, hbs⟩, -⟩ := hhooked
    exact hS.isSome_of_own
      (hS.agree.own (hbs ▸ List.mem_append_right _ (List.mem_singleton_self tail)))
  cases d with
  | walk list tail => exact loadNext_ne (hS.isSome_of_own (hS.agree.own hd.2)) (map_error h)
  | load list tail => cases h
  | store list tail head => exact storeNext_ne (htail hd.1) (map_error h)
  | cas list tail head =>
    rw [Dispose.step] at h
    split at h <;> cases h

/-- So are those that the search in `erase` comes to. -/
theorem Erase.step_ne {e : Erase} (hS : Shared g c) (he : EraseOk g c e) :
    e.step g spurious ≠ .error .badAccess := by
  intro h
  cases e with
  | load it =>
    rw [Erase.step] at h
    split at h <;> cases h
  | head n => exact loadNext_ne (hS.isSome_of_own he.1) (map_error h)
  | cas n next =>
    rw [Erase.step] at h
    split at h <;> cases h
  | find it n => exact loadNext_ne (hS.isSome_of_own he.1.2.1) (map_error h)
  | behind n m => exact loadNext_ne (hS.isSome_of_own (hS.next_live he.1.1 he.1.2)) (map_error h)
  | unlink n m next => exact storeNext_ne (hS.isSome_of_own he.1.1) (map_error h)
  | dispose d next => exact Dispose.step_ne hS he.1 (map_error h)

/-- `reclaim` destroys each node once, after it has read the next one from it. -/
theorem Reclaim.step_ne {r : Reclaim} (hS : Shared g c) (hr : ReclaimOk g c r) :
    r.step g spurious ≠ .error .badAccess := by
  intro h
  cases r with
  | loadRefcount => cases h
  | exchange =>
    rw [Reclaim.step] at h
    split at h <;> cases h
  | cas f => cases h
  | putBack f =>
    rw [Reclaim.step] at h
    split at h <;> cases h
  | dispose d => exact Dispose.step_ne hS hr.1 (map_error h)
  | destroy p =>
    cases p with
    | none => cases h
    | some tmp =>
      refine loadNext_ne ?_ (map_error h)
      cases hlist : c.nodes .doomed with
      | nil =>
        have hlinked := hr.1
        rw [hlist] at hlinked
        cases hlinked
      | cons a as =>
        have hlinked := hr.1
        rw [hlist] at hlinked
        obtain rfl : tmp = a := Option.some.inj hlinked.1
        exact hS.isSome_of_own (hS.agree.own (hlist ▸ List.mem_cons_self ..))
  | deallocate tmp p =>
    obtain ⟨⟨as, hlist, -⟩, -⟩ := hr
    have htmp := hS.isSome_of_own (hS.agree.own (hlist ▸ List.mem_cons_self ..))
    have hg := map_error h
    rw [ConcurrentList.deallocate, if_pos htmp] at hg
    cases hg

/-- A call on an iterator reads a node that the thread can see. -/
theorem call_ne {ch : Choice α} (hS : Shared g c) (hits : ∀ a ∈ its, Visible c a) :
    call i g its ch ≠ .error .badAccess := by
  intro h
  cases ch with
  | increment it =>
    rw [call] at h
    split at h
    next hit => exact loadNext_ne (hS.isSome_of_visible (hits it hit)) (map_error h)
    next => cases h
  | dereference it =>
    rw [call] at h
    split at h
    next hit =>
      split at h
      next => cases h
      next hnone =>
        -- an iterator that holds the list is never on a destroyed node
        have hsome := hS.isSome_of_visible (hits it hit)
        rw [hnone] at hsome
        cases hsome
    next => cases h
  | emplaceFront n v =>
    have hg := map_error h
    unfold ConcurrentList.construct at hg
    split at hg <;> cases hg
  | erase it =>
    rw [call] at h
    split at h <;> cases h
  | clear =>
    rw [call] at h
    split at h
    · split at h <;> cases h
    · cases h
  | unlock => cases h
  | begin => cases h
  | lock => cases h
  | reclaim => cases h
  | go spurious => cases h

/-- No step of a thread reads a node that is not constructed. -/
theorem act_ne {l : Local} {ch : Choice α} (hS : Shared g c) (h : Ok i g c l) :
    act i ch g l ≠ .error .badAccess := by
  intro hact
  obtain ⟨pc, its⟩ := l
  have hstage := h.stage
  cases pc with
  | unlocked =>
    cases ch with
    | reclaim =>
      simp only [act] at hact
      split at hact
      · split at hact <;> cases hact
      · cases hact
    | _ => cases hact
  | ready => exact call_ne hS h.its hact
  | emplacing e =>
    cases ch with
    | go spurious =>
      have hstep := map_error hact
      cases e with
      | load n => cases hstep
      | store n next =>
        exact storeNext_ne (hS.isSome_of_own ((h.fresh n).mpr rfl)) (map_error hstep)
      | cas n next =>
        rw [Emplace.step] at hstep
        split at hstep <;> cases hstep
    | _ => cases hact
  | erasing e =>
    cases ch with
    | go spurious => exact Erase.step_ne hS hstage (map_error hact)
    | _ => cases hact
  | clearing d =>
    cases ch with
    | go spurious => exact Dispose.step_ne hS hstage (map_error hact)
    | _ => cases hact
  | reclaiming r =>
    cases ch with
    | go spurious => exact Reclaim.step_ne hS hstage (map_error hact)
    | _ => cases hact

end Access

/-- **No thread ever uses a node that is not constructed**, so none is used after it has been
destroyed, and none is destroyed twice. -/
theorem list_safe [DecidableEq ι] [Fintype ι] (hι : Fintype.card ι < 2 ^ 32)
    (schedule : List (ι × Choice α)) :
    runList schedule ≠ .error .badAccess :=
  Threads.run_ne_error (keeps hι) stable (fun _ _ _ _ _ hS h => act_ne hS h) start_sound schedule

/-! ## Where the nodes are -/

variable [DecidableEq ι] [Fintype ι] {schedule : List (ι × Choice α)}
  {s : Threads ι (ConcurrentList ι α) Local}

/-- The invariant holds in every state that is reached. -/
theorem reached_sound (hι : Fintype.card ι < 2 ^ 32) (hr : runList schedule = .ok s) :
    Threads.Sound Shared Ok s :=
  Threads.run_sound (keeps hι) stable start_sound hr

/-- One thread pushes three items, erases the last one and calls `reclaim`. It has the free list in
hand when the other thread comes to read, so it puts it back. Then it erases the second item while
the other thread reads it. -/
def eraseWhileReading : List (Bool × Choice Nat) :=
  let call (c : Choice Nat) (steps : Nat) : List (Bool × Choice Nat) :=
    (false, c) :: List.replicate steps (false, .go false)
  call .lock 0 ++ call (.emplaceFront 10 1) 3 ++ call (.emplaceFront 20 2) 3 ++
    call (.emplaceFront 30 3) 3 ++ call (.erase 30) 6 ++ call .unlock 0 ++ call .reclaim 2 ++
    [(true, .lock), (true, .begin), (true, .dereference 20)] ++
    List.replicate 2 (false, .go false) ++ call .lock 0 ++ call .begin 0 ++ call (.erase 20) 6 ++
    call .unlock 0

theorem eraseWhileReading_ok : ∃ s, runList eraseWhileReading = .ok s := exists_of_isOk rfl

theorem list_safe_eraseWhileReading : runList eraseWhileReading ≠ .error .badAccess :=
  list_safe (by decide) eraseWhileReading

section Idle

variable {pc : Pc} (hidle : pc = .unlocked ∨ pc = .ready)

include hidle

/-- Between its calls a thread has no role, and no node in its hand. -/
theorem removes_idle : pc.removes = false := by
  rcases hidle with rfl | rfl
  · rfl
  · rfl

theorem reclaims_idle : pc.reclaims = false := by
  rcases hidle with rfl | rfl
  · rfl
  · rfl

theorem fresh_idle : pc.fresh = none := by
  rcases hidle with rfl | rfl
  · rfl
  · rfl

end Idle

/-- **Every node is in one place.** The list and the free list have no node in common and none
twice, and while no thread is in a call that has a node in its hand, these are all
the nodes there are. -/
theorem list_owned (hι : Fintype.card ι < 2 ^ 32) (hr : runList schedule = .ok s) :
    ∃ live free, Linked s.shared.next s.shared.head live ∧ Linked s.shared.next s.shared.free free ∧
      (live ++ free).Nodup ∧ (∀ a ∈ live ++ free, (s.shared.data a).isSome = true) ∧
      ((∀ i, (s.locals i).pc = .unlocked ∨ (s.locals i).pc = .ready) →
        ∀ a, (s.shared.data a).isSome = true → a ∈ live ++ free) := by
  obtain ⟨c, hS, hOk⟩ := reached_sound hι hr
  refine ⟨c.nodes .live, c.nodes .free, hS.head, hS.free, ?_, fun a ha => ?_, fun hidle a ha => ?_⟩
  · refine (hS.agree.nodup _).append (hS.agree.nodup _) fun a hlive hfree => ?_
    have := (hS.agree.own hlive).symm.trans (hS.agree.own hfree)
    exact held_ne (by decide) (Option.some.inj this)
  · rcases List.mem_append.mp ha with ha | ha
    · exact hS.isSome_of_own (hS.agree.own ha)
    · exact hS.isSome_of_own (hS.agree.own ha)
  · -- nobody removes, reclaims or has a node of its own
    have hrem : s.shared.remover = none := Option.eq_none_iff_forall_ne_some.mpr fun i hi =>
      Bool.noConfusion ((removes_idle (hidle i)).symm.trans ((hOk i).remover.mp hi))
    have hrec : s.shared.reclaimer = none := Option.eq_none_iff_forall_ne_some.mpr fun i hi =>
      Bool.noConfusion ((reclaims_idle (hidle i)).symm.trans ((hOk i).reclaimer.mp hi))
    rw [hS.constructed, Option.isSome_iff_exists] at ha
    obtain ⟨o, ho⟩ := ha
    rw [List.mem_append]
    cases o with
    | fresh i =>
      have hfresh := ((hOk i).fresh a).mp ho
      rw [fresh_idle (hidle i)] at hfresh
      cases hfresh
    | held k =>
      have hmem := hS.agree.mem ho
      cases k with
      | live => exact Or.inl hmem
      | free => exact Or.inr hmem
      | removed =>
        rw [hS.idleRemover hrem] at hmem
        cases hmem
      | taken =>
        rw [(hS.idleReclaimer hrec).1] at hmem
        cases hmem
      | doomed =>
        rw [(hS.idleReclaimer hrec).2] at hmem
        cases hmem

theorem list_owned_eraseWhileReading :
    ∃ s, runList eraseWhileReading = .ok s ∧
      ∃ live free, Linked s.shared.next s.shared.head live ∧
        Linked s.shared.next s.shared.free free ∧ (live ++ free).Nodup ∧
        (∀ a ∈ live ++ free, (s.shared.data a).isSome = true) ∧
        ((∀ i, (s.locals i).pc = .unlocked ∨ (s.locals i).pc = .ready) →
          ∀ a, (s.shared.data a).isSome = true → a ∈ live ++ free) := by
  obtain ⟨s, hs⟩ := eraseWhileReading_ok
  exact ⟨s, hs, list_owned (by decide) hs⟩

/-! ## The list as a list -/

/-- What the calls do to the list of items, each an address with a value. -/
inductive ListOp (α : Type)
  | push (n : Addr) (v : α)
  | remove (n : Addr)
  | clear
  deriving DecidableEq, Repr

/-- The list as its users see it. A node is pushed once, and removed while it is there. -/
def ListOp.step (items : List (Addr × α)) : ListOp α → Except Unit (List (Addr × α))
  | .push n v => if n ∈ items.map Prod.fst then .error () else .ok ((n, v) :: items)
  | .remove n =>
    if n ∈ items.map Prod.fst then .ok (items.filter (·.1 ≠ n)) else .error ()
  | .clear => .ok []

/-- The linearization points: the step in which a call takes effect. -/
def linearizes (g : ConcurrentList ι α) (l : Local) (ch : Choice α) : Option (ListOp α) :=
  match l.pc, ch with
  | .emplacing (.cas n next), .go spurious =>
    if g.head = next ∧ spurious = false then (g.data n).map (.push n) else none
  | .erasing (.cas n _), .go _ => if g.head = some n then some (.remove n) else none
  | .erasing (.unlink _ m _), .go _ => some (.remove m)
  | .ready, .clear => some .clear
  | _, _ => none

omit [DecidableEq ι] [Fintype ι] in
/-- `emplace_front` takes effect when its compare-exchange succeeds. -/
theorem linearizes_push (g : ConcurrentList ι α) (n : Addr) (next : Option Addr) (its : List Addr)
    (spurious : Bool) :
    linearizes g ⟨.emplacing (.cas n next), its⟩ (.go spurious) =
      if g.head = next ∧ spurious = false then (g.data n).map (.push n) else none := rfl

omit [DecidableEq ι] [Fintype ι] in
/-- `erase` takes effect when the head is replaced, if the item is the first. -/
theorem linearizes_head (g : ConcurrentList ι α) (n : Addr) (next : Option Addr) (its : List Addr)
    (spurious : Bool) :
    linearizes g ⟨.erasing (.cas n next), its⟩ (.go spurious) =
      if g.head = some n then some (.remove n) else none := rfl

/-- The items of the list, in their order. -/
def Contents (g : ConcurrentList ι α) (items : List (Addr × α)) : Prop :=
  Linked g.next g.head (items.map Prod.fst) ∧ ∀ x ∈ items, g.data x.1 = some x.2

section Contents

omit [DecidableEq ι] [Fintype ι]

variable {i : ι} {g g' : ConcurrentList ι α} {c : Ghost ι} {its : List Addr} {spurious : Bool}
  {items : List (Addr × α)}

/-- The items are those of the live nodes. -/
theorem Contents.nodes_eq (h : Contents g items) (hS : Shared g c) :
    items.map Prod.fst = c.nodes .live := h.1.unique hS.head

/-- The list itself is not touched. -/
def Frame (g : ConcurrentList ι α) (c : Ghost ι) (g' : ConcurrentList ι α) : Prop :=
  g'.head = g.head ∧
    ∀ a, c.own a = some (.held .live) → g'.next a = g.next a ∧ g'.data a = g.data a

/-- A step that does not touch the list leaves its items. -/
theorem Contents.frame (h : Contents g items) (hS : Shared g c) (hframe : Frame g c g') :
    Contents g' items := by
  have hown : ∀ a ∈ items.map Prod.fst, c.own a = some (.held .live) := fun a ha =>
    hS.agree.own (h.nodes_eq hS ▸ ha)
  refine ⟨?_, fun x hx => ?_⟩
  · rw [hframe.1]
    exact h.1.congr fun a ha => (hframe.2 a (hown a ha)).1
  · rw [(hframe.2 x.1 (hown x.1 (List.mem_map_of_mem hx))).2]
    exact h.2 x hx

theorem frame_same {g' : ConcurrentList ι α} (hhead : g'.head = g.head) (hnext : g'.next = g.next)
    (hdata : g'.data = g.data) : Frame g c g' :=
  ⟨hhead, fun a _ => ⟨congrFun hnext a, congrFun hdata a⟩⟩

/-- Links of nodes that are not in the list are not part of it. -/
theorem frame_setNext {n : Addr} {p : Option Addr} {o : Owner ι} (hn : c.own n = some o)
    (ho : o ≠ .held .live) : Frame g c (g.setNext n p) := by
  refine ⟨rfl, fun a ha => ⟨Function.update_of_ne ?_ .., rfl⟩⟩
  rintro rfl
  exact ho (Option.some.inj (hn.symm.trans ha))

/-- What is put into the free list has left the list before. -/
theorem Dispose.frame {d : Dispose} {k : Kind} (hS : Shared g c)
    (hd : DisposeOk g c (c.nodes k) d) (hk : k ≠ .live)
    {y : ConcurrentList ι α × (Dispose ⊕ Unit)} (hstep : d.step g spurious = .ok y) :
    Frame g c y.1 := by
  cases d with
  | walk list tail =>
    obtain ⟨p, -, rfl⟩ := map_ok hstep
    cases p with
    | some n => exact frame_same rfl rfl rfl
    | none => exact frame_same rfl rfl rfl
  | load list tail =>
    obtain rfl := (Except.ok.inj hstep).symm
    exact frame_same rfl rfl rfl
  | store list tail head =>
    obtain ⟨g', hg, rfl⟩ := map_ok hstep
    obtain rfl := storeNext_ok hg
    obtain ⟨⟨bs, hbs⟩, -⟩ := hd.1
    have htail := hS.agree.own (hbs ▸ List.mem_append_right _ (List.mem_singleton_self tail))
    exact frame_setNext htail (held_ne hk)
  | cas list tail head =>
    rw [Dispose.step] at hstep
    split at hstep
    · obtain rfl := (Except.ok.inj hstep).symm
      exact frame_same rfl rfl rfl
    · obtain rfl := (Except.ok.inj hstep).symm
      exact frame_same rfl rfl rfl

/-- What a step does to the items. -/
def Matched (g : ConcurrentList ι α) (l : Local) (ch : Choice α) (g' : ConcurrentList ι α)
    (items : List (Addr × α)) : Prop :=
  ∃ items', run ListOp.step items (linearizes g l ch).toList = .ok items' ∧ Contents g' items'

/-- A step without effect leaves the items as they are. -/
theorem matched_frame {l : Local} {ch : Choice α} (h : Contents g items) (hS : Shared g c)
    (hnone : linearizes g l ch = none) (hframe : Frame g c g') : Matched g l ch g' items := by
  refine ⟨items, ?_, h.frame hS hframe⟩
  rw [hnone]
  rfl

/-- A step at a linearization point does what the sequential list does. -/
theorem matched_one {l : Local} {ch : Choice α} {op : ListOp α} {items' : List (Addr × α)}
    (hsome : linearizes g l ch = some op) (hop : ListOp.step items op = .ok items')
    (h' : Contents g' items') : Matched g l ch g' items := by
  refine ⟨items', ?_, h'⟩
  rw [hsome]
  show run ListOp.step items [op] = .ok items'
  rw [run, hop]
  rfl

/-- The steps of `emplace_front`: one of them pushes the item. -/
theorem matched_push {e : Emplace} (h : Contents g items) (hS : Shared g c)
    (hOk : Ok i g c ⟨.emplacing e, its⟩) {r : ConcurrentList ι α × Local}
    (hact : act i (.go spurious) g ⟨.emplacing e, its⟩ = .ok r) :
    Matched g ⟨.emplacing e, its⟩ (.go spurious) r.1 items := by
  obtain ⟨y, hstep, rfl⟩ := map_ok hact
  have hn : c.own e.node = some (.fresh i) := (hOk.fresh e.node).mpr rfl
  cases e with
  | load n =>
    obtain rfl := (Except.ok.inj hstep).symm
    exact matched_frame h hS rfl (frame_same rfl rfl rfl)
  | store n next =>
    obtain ⟨g', hg, rfl⟩ := map_ok hstep
    obtain rfl := storeNext_ok hg
    exact matched_frame h hS rfl (frame_setNext hn fresh_ne)
  | cas n next =>
    rw [Emplace.step] at hstep
    split at hstep
    next hcas =>
      obtain rfl := (Except.ok.inj hstep).symm
      obtain ⟨v, hv⟩ := Option.isSome_iff_exists.mp (hS.isSome_of_own hn)
      -- the node has belonged to this thread until now
      have hnot : n ∉ items.map Prod.fst := by
        rw [h.nodes_eq hS]
        intro hmem
        exact fresh_ne (Option.some.inj (hn.symm.trans (hS.agree.own hmem)))
      have hlin : linearizes g ⟨.emplacing (.cas n next), its⟩ (.go spurious) =
          some (.push n v) := by
        rw [linearizes_push, if_pos hcas, show g.data n = some v from hv]
        rfl
      refine matched_one hlin (if_neg hnot) ⟨⟨rfl, ?_⟩, fun x hx => ?_⟩
      · show Linked g.next (g.next n) (items.map Prod.fst)
        rw [show g.next n = g.head from Eq.trans hOk.stage hcas.1.symm]
        exact h.1
      · rcases List.mem_cons.mp hx with rfl | hx
        · exact hv
        · exact h.2 x hx
    next hcas =>
      obtain rfl := (Except.ok.inj hstep).symm
      refine matched_frame h hS ?_ (frame_same rfl rfl rfl)
      rw [linearizes_push, if_neg hcas]

/-- The items without one of them. -/
theorem contents_remove {n : Addr} (h : Contents g items) (hS : Shared g c)
    (hn : c.own n = some (.held .live)) {c' : Ghost ι} (hS' : Shared g' c')
    (hlist : c'.nodes .live = (c.nodes .live).filter (· ≠ n)) (hdata : g'.data = g.data) :
    ListOp.step items (.remove n) = .ok (items.filter (·.1 ≠ n)) ∧
      Contents g' (items.filter (·.1 ≠ n)) := by
  have hmem : n ∈ items.map Prod.fst := h.nodes_eq hS ▸ hS.agree.mem hn
  refine ⟨if_pos hmem, ?_, fun x hx => ?_⟩
  · have hhead := hS'.head
    rw [hlist, ← h.nodes_eq hS, List.filter_map] at hhead
    exact hhead
  · rw [hdata]
    exact h.2 x (List.mem_filter.mp hx).1

/-- The list without one node. -/
theorem nodes_move_live (c : Ghost ι) (n : Addr) :
    (c.move [n] .removed).nodes .live = (c.nodes .live).filter (· ≠ n) := by
  rw [Ghost.nodes_move_of_ne (by decide)]
  refine List.filter_congr fun a _ => decide_eq_decide.mpr ?_
  rw [List.mem_singleton]

/-- Giving a role back does not touch the list. -/
theorem Matched.congr {l : Local} {ch : Choice α} {g'' : ConcurrentList ι α}
    (h : Matched g l ch g' items) (hhead : g''.head = g'.head) (hnext : g''.next = g'.next)
    (hdata : g''.data = g'.data) : Matched g l ch g'' items := by
  obtain ⟨items', hrun, hlinked, hvalues⟩ := h
  refine ⟨items', hrun, ?_, ?_⟩
  · rw [hhead, hnext]
    exact hlinked
  · rw [hdata]
    exact hvalues

/-- The steps of `erase`: one of them removes the item. -/
theorem matched_erase_step {e : Erase} (h : Contents g items) (hS : Shared g c)
    (hOk : Ok i g c ⟨.erasing e, its⟩) {y : ConcurrentList ι α × (Erase ⊕ Option Addr)}
    (hstep : e.step g spurious = .ok y) :
    Matched g ⟨.erasing e, its⟩ (.go spurious) y.1 items := by
  have hi : g.remover = some i := hOk.remover.mpr rfl
  have hstage : EraseOk g c e := hOk.stage
  have hsame : ∀ {e' : Erase}, linearizes g ⟨.erasing e', its⟩ (.go spurious) = none →
      Matched g ⟨.erasing e', its⟩ (.go spurious) g items := fun hnone =>
    matched_frame h hS hnone (frame_same rfl rfl rfl)
  cases e with
  | load it =>
    rw [Erase.step] at hstep
    split at hstep
    · obtain rfl := (Except.ok.inj hstep).symm
      exact hsame rfl
    · obtain rfl := (Except.ok.inj hstep).symm
      exact hsame rfl
  | head n =>
    obtain ⟨p, -, rfl⟩ := map_ok hstep
    exact hsame rfl
  | cas n next =>
    obtain ⟨⟨hn, rfl⟩, -⟩ := hstage
    rw [Erase.step] at hstep
    split at hstep
    next hhead =>
      obtain rfl := (Except.ok.inj hstep).symm
      obtain ⟨hop, hitems⟩ := contents_remove h hS hn (hS.unlinkHead hi hhead)
        (nodes_move_live c n) rfl
      refine matched_one ?_ hop hitems
      rw [linearizes_head, if_pos hhead]
    next hhead =>
      -- a node was pushed in between, and the removal starts again
      obtain rfl := (Except.ok.inj hstep).symm
      refine hsame ?_
      rw [linearizes_head, if_neg hhead]
  | find it n =>
    obtain ⟨p, -, rfl⟩ := map_ok hstep
    cases p with
    | some m => exact hsame rfl
    | none => exact hsame rfl
  | behind n m =>
    obtain ⟨p, -, rfl⟩ := map_ok hstep
    exact hsame rfl
  | unlink n m next =>
    obtain ⟨⟨hn, hm, hnm, rfl⟩, -⟩ := hstage
    obtain ⟨g', hg, rfl⟩ := map_ok hstep
    obtain rfl := storeNext_ok hg
    obtain ⟨hop, hitems⟩ := contents_remove h hS hm (hS.unlink hi hn hnm) (nodes_move_live c m) rfl
    exact matched_one rfl hop hitems
  | dispose d next =>
    obtain ⟨y', hstep', rfl⟩ := map_ok hstep
    obtain ⟨g', y'⟩ := y'
    have hframe := Dispose.frame hS hstage.1 (by decide) hstep'
    cases y' with
    | inl d' => exact matched_frame h hS rfl hframe
    | inr u => exact matched_frame h hS rfl hframe

/-- `reclaim` is not seen by the users of the list. -/
theorem matched_reclaim {e : Reclaim} (h : Contents g items) (hS : Shared g c)
    (hOk : Ok i g c ⟨.reclaiming e, its⟩) {y : ConcurrentList ι α × (Reclaim ⊕ Bool)}
    (hstep : e.step g spurious = .ok y) :
    Matched g ⟨.reclaiming e, its⟩ (.go spurious) y.1 items := by
  -- `reclaim` writes to nodes of the free list only, and these are not in the list
  refine matched_frame h hS rfl ?_
  have hstage : ReclaimOk g c e := hOk.stage
  cases e with
  | loadRefcount =>
    obtain rfl := (Except.ok.inj hstep).symm
    exact frame_same rfl rfl rfl
  | exchange =>
    rw [Reclaim.step] at hstep
    split at hstep
    · obtain rfl := (Except.ok.inj hstep).symm
      exact frame_same rfl rfl rfl
    · obtain rfl := (Except.ok.inj hstep).symm
      exact frame_same rfl rfl rfl
  | cas f =>
    obtain rfl := (Except.ok.inj hstep).symm
    exact frame_same rfl rfl rfl
  | putBack f =>
    rw [Reclaim.step] at hstep
    split at hstep
    · obtain rfl := (Except.ok.inj hstep).symm
      exact frame_same rfl rfl rfl
    · obtain rfl := (Except.ok.inj hstep).symm
      exact frame_same rfl rfl rfl
  | dispose d =>
    obtain ⟨⟨g', y'⟩, hstep', rfl⟩ := map_ok hstep
    have hframe := Dispose.frame hS hstage.1 (by decide) hstep'
    cases y' with
    | inl d' => exact hframe
    | inr u => exact hframe
  | destroy p =>
    cases p with
    | none =>
      obtain rfl := (Except.ok.inj hstep).symm
      exact frame_same rfl rfl rfl
    | some tmp =>
      obtain ⟨p, -, rfl⟩ := map_ok hstep
      exact frame_same rfl rfl rfl
  | deallocate tmp p =>
    obtain ⟨⟨as, hlist, -⟩, -⟩ := hstage
    have htmp := hS.agree.own (hlist ▸ List.mem_cons_self ..)
    obtain ⟨g', hg, rfl⟩ := map_ok hstep
    rw [ConcurrentList.deallocate, if_pos (hS.isSome_of_own htmp)] at hg
    obtain rfl := (Except.ok.inj hg).symm
    refine ⟨rfl, fun a ha => ⟨rfl, Function.update_of_ne ?_ ..⟩⟩
    rintro rfl
    exact held_ne (by decide) (Option.some.inj (htmp.symm.trans ha))

/-- A call begins without effect, but for `clear`. -/
theorem matched_call {ch : Choice α} (h : Contents g items) (hS : Shared g c)
    {r : ConcurrentList ι α × Local} (hact : call i g its ch = .ok r) :
    Matched g ⟨.ready, its⟩ ch r.1 items := by
  have hsame : ∀ {ch : Choice α}, linearizes g ⟨.ready, its⟩ ch = none →
      Matched g ⟨.ready, its⟩ ch g items := fun hnone =>
    matched_frame h hS hnone (frame_same rfl rfl rfl)
  cases ch with
  | unlock =>
    obtain rfl := (Except.ok.inj hact).symm
    exact matched_frame h hS rfl (frame_same rfl rfl rfl)
  | begin =>
    obtain rfl := (Except.ok.inj hact).symm
    exact hsame rfl
  | increment it =>
    rw [call] at hact
    split at hact
    · obtain ⟨p, -, rfl⟩ := map_ok hact
      exact hsame rfl
    · cases hact
  | dereference it =>
    rw [call] at hact
    split at hact
    · split at hact
      · obtain rfl := (Except.ok.inj hact).symm
        exact hsame rfl
      · cases hact
    · cases hact
  | emplaceFront n v =>
    obtain ⟨g', hg, rfl⟩ := map_ok hact
    refine matched_frame h hS rfl ?_
    obtain ⟨hown, -⟩ := hS.construct (i := i) hg
    unfold ConcurrentList.construct at hg
    split at hg
    · cases hg
    · obtain rfl := (Except.ok.inj hg).symm
      have hne : ∀ a, c.own a = some (.held .live) → a ≠ n := by
        rintro a ha rfl
        exact Option.some_ne_none _ (ha.symm.trans hown)
      exact ⟨rfl, fun a ha =>
        ⟨Function.update_of_ne (hne a ha) .., Function.update_of_ne (hne a ha) ..⟩⟩
  | erase it =>
    rw [call] at hact
    split at hact
    · obtain rfl := (Except.ok.inj hact).symm
      exact matched_frame h hS rfl (frame_same rfl rfl rfl)
    · cases hact
  | clear =>
    rw [call] at hact
    split at hact
    · split at hact
      next =>
        obtain rfl := (Except.ok.inj hact).symm
        exact matched_one rfl rfl ⟨rfl, fun x hx => absurd hx List.not_mem_nil⟩
      next hhead =>
        obtain rfl := (Except.ok.inj hact).symm
        exact matched_one rfl rfl ⟨hhead, fun x hx => absurd hx List.not_mem_nil⟩
    · cases hact
  | lock => cases hact
  | reclaim => cases hact
  | go spurious => cases hact

/-- Each step does to the items what it emits. -/
theorem matched {l : Local} {ch : Choice α} (h : Contents g items) (hS : Shared g c)
    (hOk : Ok i g c l) {r : ConcurrentList ι α × Local} (hact : act i ch g l = .ok r) :
    Matched g l ch r.1 items := by
  obtain ⟨pc, its⟩ := l
  cases pc with
  | unlocked =>
    cases ch with
    | lock =>
      obtain rfl := (Except.ok.inj hact).symm
      exact matched_frame h hS rfl (frame_same rfl rfl rfl)
    | reclaim =>
      simp only [act] at hact
      split at hact
      · split at hact
        · obtain rfl := (Except.ok.inj hact).symm
          exact matched_frame h hS rfl (frame_same rfl rfl rfl)
        · obtain rfl := (Except.ok.inj hact).symm
          exact matched_frame h hS rfl (frame_same rfl rfl rfl)
      · cases hact
    | _ => cases hact
  | ready => exact matched_call h hS hact
  | emplacing e =>
    cases ch with
    | go spurious => exact matched_push h hS hOk hact
    | _ => cases hact
  | erasing e =>
    cases ch with
    | go spurious =>
      obtain ⟨⟨g', y⟩, hstep, rfl⟩ := map_ok hact
      have hmatched := matched_erase_step h hS hOk hstep
      cases y with
      | inl e' => exact hmatched
      | inr next => exact hmatched.congr rfl rfl rfl
    | _ => cases hact
  | clearing d =>
    cases ch with
    | go spurious =>
      obtain ⟨⟨g', y⟩, hstep, rfl⟩ := map_ok hact
      have hstage : DisposeOk g c (c.nodes .removed) d := hOk.stage
      have hframe := Dispose.frame hS hstage (by decide) hstep
      cases y with
      | inl d' => exact matched_frame h hS rfl hframe
      | inr u => exact matched_frame h hS rfl hframe
    | _ => cases hact
  | reclaiming e =>
    cases ch with
    | go spurious =>
      obtain ⟨⟨g', y⟩, hstep, rfl⟩ := map_ok hact
      have hmatched := matched_reclaim h hS hOk hstep
      cases y with
      | inl e' => exact hmatched
      | inr b => exact hmatched.congr rfl rfl rfl
    | _ => cases hact

end Contents

/-- **The list is linearizable**: the pushes, removals and clears of a run, in the order of their
linearization points, are a run of a plain list that ends with the items that are there. No
node is pushed twice and none is removed that is not in the list. -/
theorem list_linearizes (hι : Fintype.card ι < 2 ^ 32) (hr : runList schedule = .ok s) :
    ∃ items, run ListOp.step [] (Threads.emits act linearizes (start ι α) schedule) = .ok items ∧
      Contents s.shared items := by
  have hempty : Contents (start ι α).shared [] := ⟨rfl, fun x hx => absurd hx List.not_mem_nil⟩
  refine Threads.run_simulates (R := fun s items => Contents s.shared items) (keeps hι) stable
    (fun s e s' items hs hitems hstep => ?_) start_sound hempty hr
  obtain ⟨c, hS, hOk⟩ := hs
  obtain ⟨g, l, hact, rfl⟩ := Threads.step_ok hstep
  exact matched hitems hS (hOk e.1) hact

theorem list_linearizes_eraseWhileReading :
    ∃ s, runList eraseWhileReading = .ok s ∧
      ∃ items, run ListOp.step [] (Threads.emits act linearizes (start Bool Nat)
        eraseWhileReading) = .ok items ∧ Contents s.shared items := by
  obtain ⟨s, hs⟩ := eraseWhileReading_ok
  exact ⟨s, hs, list_linearizes (by decide) hs⟩

/-- The first node of the list that is put into the free list. -/
def Dispose.list : Dispose → Addr
  | .walk list _ | .load list _ | .store list _ _ | .cas list _ _ => list

/-- The first of the nodes that `reclaim` has taken from the free list. When it begins to destroy
them, nobody holds the list. -/
def Reclaim.taken : Reclaim → Option Addr
  | .cas f | .putBack f => some f
  | .dispose d => some d.list
  | _ => none

/-- From `a` an iterator comes to `b`. -/
def Leads (g : ConcurrentList ι α) (a b : Addr) : Prop :=
  Relation.ReflTransGen (fun a b => g.next a = some b) a b

/-- The node was put into the free list, and is there or in the hands of `reclaim`. -/
def IsRetired (s : Threads ι (ConcurrentList ι α) Local) (it : Addr) : Prop :=
  ∃ first, Leads s.shared first it ∧ (s.shared.free = some first ∨
    ∃ i r, (s.locals i).pc = .reclaiming r ∧ r.taken = some first)

section Retired

omit [DecidableEq ι] [Fintype ι]

variable {i : ι} {g : ConcurrentList ι α} {c : Ghost ι}

/-- The list that is put back begins with one of its nodes. -/
theorem DisposeOk.first_mem {as : List Addr} {d : Dispose} (h : DisposeOk g c as d) :
    d.list ∈ as := by
  cases d with
  | walk list tail => exact h.1.first_mem
  | load list tail => exact Linked.first_mem h.2
  | store list tail head => exact h.1.2.first_mem
  | cas list tail head => exact h.1.2.first_mem

/-- What `reclaim` has taken was retired. -/
theorem ReclaimOk.retired {r : Reclaim} {first : Addr} (hS : Shared g c) (h : ReclaimOk g c r)
    (hfirst : r.taken = some first) : Retired c first := by
  cases r with
  | cas f =>
    cases hfirst
    exact Or.inr (hS.agree.own h.1.first_mem)
  | putBack f =>
    cases hfirst
    exact Or.inr (hS.agree.own h.1.first_mem)
  | dispose d =>
    cases hfirst
    exact Or.inr (hS.agree.own h.1.first_mem)
  | _ => cases hfirst

/-- From a retired node one comes to retired nodes only. -/
theorem Retired.leads {a b : Addr} (ha : Retired c a) (hS : Shared g c) (hab : Leads g a b) :
    Retired c b := by
  induction hab with
  | refl => exact ha
  | tail _ hnext ih => exact hS.retired _ _ ih hnext

end Retired

/-- **What an iterator sees.** While its node is in the list, the next one is that behind it, so
that it goes through the rest of the list. From a node that was put into the free list it never
comes back, whether `reclaim` has the node in hand or not: an iterator whose item is erased
skips all items behind it. -/
theorem list_iterates (hι : Fintype.card ι < 2 ^ 32) (hr : runList schedule = .ok s)
    {items : List (Addr × α)} (hitems : Contents s.shared items) {it : Addr} :
    (∀ pre post, items.map Prod.fst = pre ++ it :: post →
      Linked s.shared.next (s.shared.next it) post) ∧
      (IsRetired s it → ∀ n, Leads s.shared it n → n ∉ items.map Prod.fst) := by
  obtain ⟨c, hS, hOk⟩ := reached_sound hι hr
  refine ⟨fun pre post hsplit => ?_, fun hit n hreach => ?_⟩
  · have hlinked := hitems.1
    rw [hsplit] at hlinked
    exact hlinked.behind pre
  · obtain ⟨first, hlead, hfirst⟩ := hit
    have hretired : Retired c first := by
      rcases hfirst with hfree | ⟨i, r, hpc, htaken⟩
      · exact Or.inl (hS.free_own hfree)
      · have hstage := (hOk i).stage
        rw [hpc] at hstage
        exact ReclaimOk.retired hS hstage htaken
    rw [hitems.nodes_eq hS]
    intro hmem
    exact not_retired (hS.agree.own hmem) (held_ne (by decide)) (held_ne (by decide))
      ((hretired.leads hS hlead).leads hS hreach)

/-- The iterator at the erased item does not come to the item that is left. -/
theorem list_iterates_eraseWhileReading :
    ∃ s, runList eraseWhileReading = .ok s ∧
      (∀ pre post, [10] = pre ++ 20 :: post → Linked s.shared.next (s.shared.next 20) post) ∧
      IsRetired s 20 ∧ ∀ n, Leads s.shared 20 n → n ∉ [10] := by
  obtain ⟨s, hs⟩ := eraseWhileReading_ok
  have hview : (runList eraseWhileReading).map
      (fun s => (s.shared.head, s.shared.next 10, s.shared.data 10, s.shared.free)) =
        .ok (some 10, none, some 1, some 20) := by rfl
  rw [hs] at hview
  obtain ⟨hhead, hnext, hdata, hfree⟩ : s.shared.head = some 10 ∧ s.shared.next 10 = none ∧
      s.shared.data 10 = some 1 ∧ s.shared.free = some 20 := by
    injection hview with hview
    exact ⟨congrArg (·.1) hview, congrArg (·.2.1) hview, congrArg (·.2.2.1) hview,
      congrArg (·.2.2.2) hview⟩
  have hitems : Contents s.shared [(10, 1)] := by
    refine ⟨⟨hhead, hnext⟩, fun x hx => ?_⟩
    rw [List.mem_singleton.mp hx]
    exact hdata
  have hretired : IsRetired s 20 := ⟨20, Relation.ReflTransGen.refl, Or.inl hfree⟩
  obtain ⟨hlist, hskips⟩ := list_iterates (by decide) hs hitems
  exact ⟨s, hs, hlist, hretired, hskips hretired⟩

end Aoo.LockFree
