import Aoo.LockFree.Queue

/-!
# The order of `unbounded_mpsc_queue`

The nodes from `first_` to `last_` are a list in three parts: those that may be reused, the
divider, and the queue. Every other constructed node is in the hand of a producer.
The lock orders the producers among themselves; towards the consumer it is enough that
the reusable part only grows at its end and the queue only at its end (`QRely`).
-/

namespace Aoo.LockFree

open Lib

variable {ι α : Type}

/-- Where a constructed node is. -/
inductive Place (ι : Type)
  | chain
  | hand (i : ι)
  deriving DecidableEq

structure QGhost (ι : Type) where
  own : Addr → Option (Place ι)
  /-- The nodes that may be reused, and those of the queue. -/
  used : List Addr
  queue : List Addr
  /-- The thread that holds the lock. -/
  holder : Option ι

/-- All nodes from the first to the last one. -/
def QGhost.chain (g : MpscQueue α) (c : QGhost ι) : List Addr := c.used ++ g.divider :: c.queue

structure QShared (g : MpscQueue α) (c : QGhost ι) : Prop where
  constructed : ∀ a, (g.data a).isSome = true ↔ (c.own a).isSome = true
  nodup : (c.chain g).Nodup
  mem : ∀ a, a ∈ c.chain g ↔ c.own a = some .chain
  hooked : Hooked g.next g.first g.last (c.chain g)
  locked : g.locked = true ↔ c.holder ≠ none

/-- The values in the queue. -/
def Values (g : MpscQueue α) (c : QGhost ι) (values : List α) : Prop :=
  c.queue.map g.data = values.map some

/-! ## Where a thread stands -/

def Producer.node : Producer α → Option Addr
  | .reset n _ | .takeUnlock n _ | .write n _ | .pushLock n _ | .link n _ | .publish n _ => some n
  | _ => none

/-- It holds the lock. -/
def Producer.locks : Producer α → Bool
  | .check _ | .take _ | .reset _ _ | .takeUnlock _ _ | .allocUnlock _ => true
  | .link _ _ | .publish _ _ | .pushUnlock => true
  | _ => false

def QueuePc.node : QueuePc α → Option Addr
  | .producing p => p.node
  | _ => none

def QueuePc.locks : QueuePc α → Bool
  | .producing p => p.locks
  | _ => false

def ProducerOk (g : MpscQueue α) (c : QGhost ι) : Producer α → Prop
  | .take _ => c.used ≠ []
  | .pushLock n v | .link n v => g.data n = some v
  | .publish n v => g.data n = some v ∧ g.next g.last = some n
  | _ => True

def ConsumerOk (g : MpscQueue α) (c : QGhost ι) : Consumer α → Prop
  | .loadLast divider => divider = g.divider
  | .readNext divider => divider = g.divider ∧ c.queue ≠ []
  | .readData n => ∃ ns, c.queue = n :: ns
  | .store n v => (∃ ns, c.queue = n :: ns) ∧ g.data n = some v

def QPcOk (g : MpscQueue α) (c : QGhost ι) : QueuePc α → Prop
  | .idle => True
  | .producing p => ProducerOk g c p
  | .consuming p => ConsumerOk g c p

/-- What holds of the thread `i` where it stands. -/
structure QOk (consumer i : ι) (g : MpscQueue α) (c : QGhost ι) (l : QueuePc α) : Prop where
  hand : ∀ a, c.own a = some (.hand i) ↔ l.node = some a
  holder : c.holder = some i ↔ l.locks = true
  consumes : ∀ p, l = .consuming p → i = consumer
  stage : QPcOk g c l

/-- What the thread `i` may count on while the others go on. -/
structure QRely (consumer i : ι) (g : MpscQueue α) (c : QGhost ι) (g' : MpscQueue α)
    (c' : QGhost ι) : Prop where
  hand : ∀ a, c'.own a = some (.hand i) ↔ c.own a = some (.hand i)
  handData : ∀ a, c.own a = some (.hand i) → g'.data a = g.data a
  holder : c'.holder = some i ↔ c.holder = some i
  used : c.holder = some i → c.used ≠ [] → c'.used ≠ []
  last : c.holder = some i → g'.last = g.last ∧ g'.next g.last = g.next g.last
  divider : i = consumer → g'.divider = g.divider
  queue : i = consumer → ∃ ns, c'.queue = c.queue ++ ns
  queueData : i = consumer → ∀ a ∈ c.queue, g'.data a = g.data a

section Stable

variable {consumer i : ι} {g g' : MpscQueue α} {c c' : QGhost ι}

/-- Nobody but the consumer takes from the front. -/
theorem QRely.front (h : QRely consumer i g c g' c') (hi : i = consumer) {n : Addr}
    (hn : ∃ ns, c.queue = n :: ns) : ∃ ns, c'.queue = n :: ns := by
  obtain ⟨ns, hns⟩ := hn
  obtain ⟨ms, hms⟩ := h.queue hi
  exact ⟨ns ++ ms, by rw [hms, hns, List.cons_append]⟩

/-- **What a thread knows survives the steps of the others.** -/
theorem QOk.stable {l : QueuePc α} (h : QOk consumer i g c l) (hrely : QRely consumer i g c g' c') :
    QOk consumer i g' c' l where
  hand a := (hrely.hand a).trans (h.hand a)
  holder := hrely.holder.trans h.holder
  consumes := h.consumes
  stage := by
    have hstage := h.stage
    cases l with
    | idle => exact trivial
    | producing p =>
      have hdata : ∀ {n}, p.node = some n → g'.data n = g.data n := fun hn =>
        hrely.handData _ ((h.hand _).mpr hn)
      cases p with
      | take v => exact hrely.used (h.holder.mpr rfl) hstage
      | pushLock n v => exact (hdata rfl).trans hstage
      | link n v => exact (hdata rfl).trans hstage
      | publish n v =>
        obtain ⟨hlast, hnext⟩ := hrely.last (h.holder.mpr rfl)
        refine ⟨(hdata rfl).trans hstage.1, ?_⟩
        rw [hlast, hnext]
        exact hstage.2
      | _ => exact trivial
    | consuming p =>
      have hi := h.consumes p rfl
      cases p with
      | loadLast divider => exact Eq.trans hstage (hrely.divider hi).symm
      | readNext divider =>
        obtain ⟨hdivider, hne⟩ := hstage
        obtain ⟨ns, hns⟩ := hrely.queue hi
        refine ⟨hdivider.trans (hrely.divider hi).symm, ?_⟩
        rw [hns]
        exact List.append_ne_nil_of_left_ne_nil hne ns
      | readData n => exact hrely.front hi hstage
      | store n v =>
        obtain ⟨⟨ns, hns⟩, hv⟩ := hstage
        refine ⟨hrely.front hi ⟨ns, hns⟩, ?_⟩
        rw [hrely.queueData hi n (hns ▸ List.mem_cons_self ..)]
        exact hv

end Stable

/-! ## One access -/

section Steps

variable {consumer i : ι} {g g' : MpscQueue α} {c c' : QGhost ι} {l l' : QueuePc α} {n m : Addr}

/-- Every node with an owner is constructed. -/
theorem QShared.isSome_of_own (h : QShared g c) {o : Place ι} (hn : c.own n = some o) :
    (g.data n).isSome = true := by
  rw [h.constructed, hn]
  rfl

/-- So are all nodes of the chain. -/
theorem QShared.isSome_of_mem (h : QShared g c) (hn : n ∈ c.chain g) : (g.data n).isSome = true :=
  h.isSome_of_own ((h.mem n).mp hn)

/-- The chain begins at `first_`. -/
theorem QShared.first_eq (h : QShared g c) : ∃ as, c.chain g = g.first :: as := by
  have hlinked := h.hooked.2
  cases hchain : c.chain g with
  | nil =>
    rw [hchain] at hlinked
    cases hlinked
  | cons a as =>
    rw [hchain] at hlinked
    exact ⟨as, by rw [Option.some.inj hlinked.1]⟩

/-- `first_` is the divider exactly if nothing can be reused. -/
theorem QShared.first_eq_divider_iff (h : QShared g c) : g.first = g.divider ↔ c.used = [] := by
  obtain ⟨as, hchain⟩ := h.first_eq
  have hnodup := h.nodup
  unfold QGhost.chain at hchain hnodup
  cases hused : c.used with
  | nil =>
    rw [hused] at hchain
    exact iff_of_true (List.cons.inj hchain).1.symm rfl
  | cons a used =>
    rw [hused] at hchain hnodup
    refine iff_of_false (fun heq => ?_) (List.cons_ne_nil a used)
    have ha : a = g.first := (List.cons.inj hchain).1
    refine (List.nodup_cons.mp hnodup).1 ?_
    rw [ha, heq]
    exact List.mem_append_right _ (List.mem_cons_self ..)

/-- `empty()` -/
theorem QShared.divider_eq_last_iff (h : QShared g c) : g.divider = g.last ↔ c.queue = [] := by
  obtain ⟨⟨bs, hbs⟩, -⟩ := h.hooked
  have hnodup := h.nodup
  unfold QGhost.chain at hbs hnodup
  rcases List.eq_nil_or_concat' c.queue with hqueue | ⟨qs, q, hqueue⟩
  · rw [hqueue] at hbs
    exact iff_of_true (List.singleton_inj.mp (List.append_inj' hbs rfl).2) hqueue
  · rw [hqueue] at hbs hnodup ⊢
    refine iff_of_false (fun heq => ?_) (List.append_ne_nil_of_right_ne_nil _ (List.cons_ne_nil q []))
    have hq : q = g.last := by
      rw [← List.cons_append, ← List.append_assoc] at hbs
      exact List.singleton_inj.mp (List.append_inj' hbs rfl).2
    have hdivider := (List.nodup_append.mp hnodup).2.1
    refine (List.nodup_cons.mp hdivider).1 (List.mem_append_right _ ?_)
    rw [heq, ← hq]
    exact List.mem_singleton_self q

/-- What an access of the thread `i` has to show; `op` is what takes effect in it. -/
def QKept [DecidableEq α] (consumer i : ι) (g : MpscQueue α) (c : QGhost ι) (op : Option (QueueOp α))
    (r : MpscQueue α × QueuePc α) : Prop :=
  ∃ c', QShared r.1 c' ∧ QOk consumer i r.1 c' r.2 ∧ (∀ j, j ≠ i → QRely consumer j g c r.1 c') ∧
    ∀ values, Values g c values → ∃ values', run QueueOp.step values op.toList = .ok values' ∧
      Values r.1 c' values'

theorem QRely.refl (g : MpscQueue α) (c : QGhost ι) : QRely consumer i g c g c where
  hand _ := Iff.rfl
  handData _ _ := rfl
  holder := Iff.rfl
  used _ := id
  last _ := ⟨rfl, rfl⟩
  divider _ := rfl
  queue _ := ⟨[], (List.append_nil _).symm⟩
  queueData _ _ _ := rfl

/-- What `i` does with the lock: it takes it when it is free, or gives it back. -/
theorem qrely_holder {j : ι} (hj : j ≠ i) {holder : Option ι} {locked : Bool}
    (hold : c.holder = none ∨ c.holder = some i) (hnew : holder = none ∨ holder = some i) :
    QRely consumer j g c { g with locked := locked } { c with holder := holder } := by
  have hne : ∀ {o : Option ι}, o = none ∨ o = some i → o ≠ some j := by
    rintro o (rfl | rfl) hc
    · cases hc
    · exact hj (Option.some.inj hc).symm
  exact { QRely.refl g c with
    holder := iff_of_false (hne hnew) (hne hold)
    used := fun _ => id
    last := fun _ => ⟨rfl, rfl⟩ }

/-- A step that only the thread itself notices. -/
theorem qkept_local [DecidableEq α] (hS : QShared g c) (h : QOk consumer i g c l)
    (hnode : l'.node = l.node) (hlocks : l'.locks = l.locks)
    (hconsumes : ∀ p, l' = .consuming p → i = consumer) (hstage : QPcOk g c l') :
    QKept consumer i g c none (g, l') := by
  refine ⟨c, hS, ⟨fun a => ?_, ?_, hconsumes, hstage⟩, fun j _ => QRely.refl g c, fun values hv =>
    ⟨values, rfl, hv⟩⟩
  · rw [hnode]
    exact h.hand a
  · rw [hlocks]
    exact h.holder

/-- The lock is free and is taken. -/
theorem qkept_lock [DecidableEq α] (hS : QShared g c) (h : QOk consumer i g c l)
    (hfree : g.locked = false) (hnode : l'.node = l.node) (hlocks : l'.locks = true)
    (hconsumes : ∀ p, l' ≠ .consuming p)
    (hstage : QPcOk { g with locked := true } { c with holder := some i } l') :
    QKept consumer i g c none ({ g with locked := true }, l') := by
  have hnone : c.holder = none := by
    by_contra hc
    exact Bool.false_ne_true (hfree.symm.trans (hS.locked.mpr hc))
  refine ⟨{ c with holder := some i }, ⟨hS.constructed, hS.nodup, hS.mem, hS.hooked,
    iff_of_true rfl (Option.some_ne_none i)⟩, ⟨fun a => ?_, iff_of_true rfl hlocks,
    fun p hp => absurd hp (hconsumes p), hstage⟩,
    fun j hj => qrely_holder hj (Or.inl hnone) (Or.inr rfl), fun values hv => ⟨values, rfl, hv⟩⟩
  rw [hnode]
  exact h.hand a

/-- The lock is given back. -/
theorem qkept_unlock [DecidableEq α] (hS : QShared g c) (h : QOk consumer i g c l)
    (hlocks : l.locks = true) (hnode : l'.node = l.node) (hlocks' : l'.locks = false)
    (hconsumes : ∀ p, l' ≠ .consuming p)
    (hstage : QPcOk { g with locked := false } { c with holder := none } l') :
    QKept consumer i g c none ({ g with locked := false }, l') := by
  refine ⟨{ c with holder := none }, ⟨hS.constructed, hS.nodup, hS.mem, hS.hooked,
    iff_of_false Bool.false_ne_true fun hc => hc rfl⟩, ⟨fun a => ?_,
    iff_of_false (Option.some_ne_none i).symm (Bool.eq_false_iff.mp hlocks'),
    fun p hp => absurd hp (hconsumes p), hstage⟩,
    fun j hj => qrely_holder hj (Or.inr (h.holder.mpr hlocks)) (Or.inl rfl),
    fun values hv => ⟨values, rfl, hv⟩⟩
  rw [hnode]
  exact h.hand a

theorem producing_ne {p : Producer α} (q : Consumer α) :
    QueuePc.producing p ≠ .consuming q := by
  intro h
  cases h

theorem idle_ne (q : Consumer α) : QueuePc.idle ≠ .consuming q := by
  intro h
  cases h

/-- A thread that waits for the lock takes it when it is free. -/
theorem qkept_wait [DecidableEq α] {p p' : Producer α} (hS : QShared g c)
    (h : QOk consumer i g c (.producing p)) (hnode : p'.node = p.node) (hlocks' : p'.locks = true)
    (hstage : QPcOk { g with locked := true } { c with holder := some i } (.producing p')) :
    QKept consumer i g c none
      ({ g with locked := true }, .producing (if g.locked then p else p')) := by
  cases hlocked : g.locked with
  | true =>
    have hsame : ({ g with locked := true } : MpscQueue α) = g := by rw [← hlocked]
    rw [hsame, if_pos rfl]
    exact qkept_local hS h rfl rfl (fun q hq => absurd hq (producing_ne q)) h.stage
  | false =>
    rw [if_neg Bool.false_ne_true]
    exact qkept_lock hS h hlocked hnode hlocks' producing_ne hstage

/-- A node in the hand of a producer is not in the chain. -/
theorem hand_ne_chain {j : ι} : (Place.hand j : Place ι) ≠ .chain := by
  intro h
  cases h

/-- A node in a hand is not in the list. -/
theorem QShared.not_mem (h : QShared g c) (hn : c.own n = some (.hand i)) : n ∉ c.chain g := by
  intro hmem
  exact hand_ne_chain (Option.some.inj (hn.symm.trans ((h.mem n).mp hmem)))

/-- The queue is the end of the chain. -/
theorem mem_chain_of_queue (hn : n ∈ c.queue) : n ∈ c.chain g :=
  List.mem_append_right _ (List.mem_cons_of_mem _ hn)

/-- Behind a node that may be reused there is another one, since the divider comes later. -/
theorem QShared.take (h : QShared g c) (hused : c.used ≠ []) :
    ∃ m used, c.used = g.first :: used ∧ g.loadNext g.first = .ok m ∧
      Hooked g.next m g.last (used ++ g.divider :: c.queue) := by
  obtain ⟨as, hchain⟩ := h.first_eq
  obtain ⟨a, used, husedEq⟩ := List.exists_cons_of_ne_nil hused
  have hsplit : c.chain g = a :: (used ++ g.divider :: c.queue) := by
    unfold QGhost.chain
    rw [husedEq, List.cons_append]
  obtain rfl : g.first = a := (List.cons.inj (hchain.symm.trans hsplit)).1
  have hrest : ∃ b bs, used ++ g.divider :: c.queue = b :: bs := by
    cases used with
    | nil => exact ⟨_, _, rfl⟩
    | cons b bs => exact ⟨b, _, rfl⟩
  obtain ⟨b, bs, hb⟩ := hrest
  have hhooked := h.hooked
  rw [hsplit, hb] at hhooked
  obtain ⟨hnext, hhooked⟩ := hhooked.drop
  obtain ⟨w, hw⟩ := Option.isSome_iff_exists.mp
    (h.isSome_of_mem (hchain ▸ List.mem_cons_self .. : g.first ∈ c.chain g))
  refine ⟨b, used, husedEq, ?_, hb ▸ hhooked⟩
  rw [MpscQueue.loadNext, hw, hnext]

/-- A producer takes the first node that may be reused. -/
theorem qkept_take [DecidableEq α] {v : α} (hS : QShared g c)
    (h : QOk consumer i g c (.producing (.take v))) {r : MpscQueue α × QueuePc α}
    (hstep : (g.loadNext g.first).map (fun m =>
      ({ g with first := m }, QueuePc.producing (.reset g.first v))) = .ok r) :
    QKept consumer i g c none r := by
  obtain ⟨m, hload, rfl⟩ := map_ok hstep
  have hi : c.holder = some i := h.holder.mpr rfl
  have hused : c.used ≠ [] := h.stage
  obtain ⟨m', used, husedEq, hload', hhooked⟩ := hS.take hused
  obtain rfl : m' = m := Except.ok.inj (hload'.symm.trans hload)
  have hsplit : c.chain g = g.first :: (used ++ g.divider :: c.queue) := by
    unfold QGhost.chain
    rw [husedEq, List.cons_append]
  have hnodup := hS.nodup
  rw [hsplit] at hnodup
  have hown : c.own g.first = some .chain := (hS.mem _).mp (hsplit ▸ List.mem_cons_self ..)
  let c' : QGhost ι :=
    { c with own := Function.update c.own g.first (some (.hand i)), used := used }
  have hfirst : c'.own g.first = some (.hand i) := Function.update_self ..
  have hother : ∀ {a}, a ≠ g.first → c'.own a = c.own a := fun hne => Function.update_of_ne hne ..
  refine ⟨c', ⟨fun a => ?_, (List.nodup_cons.mp hnodup).2, fun a => ?_, hhooked, hS.locked⟩,
    ⟨fun a => ?_, h.holder, fun p hp => absurd hp (producing_ne p), trivial⟩, fun j hj => ?_,
    fun values hv => ⟨values, rfl, hv⟩⟩
  · rw [hS.constructed a]
    rcases eq_or_ne a g.first with rfl | hne
    · rw [hfirst, hown]
      exact iff_of_true rfl rfl
    · rw [hother hne]
  · rcases eq_or_ne a g.first with rfl | hne
    · rw [hfirst]
      exact iff_of_false (List.nodup_cons.mp hnodup).1 fun hc => hand_ne_chain (Option.some.inj hc)
    · rw [hother hne, ← hS.mem a, hsplit, List.mem_cons, or_iff_right hne]
      exact Iff.rfl
  · rcases eq_or_ne a g.first with rfl | hne
    · exact iff_of_true hfirst rfl
    · rw [hother hne, h.hand a]
      exact iff_of_false (Option.some_ne_none a).symm fun hc => hne (Option.some.inj hc).symm
  · have hnotj : c.holder ≠ some j := fun hc => hj (Option.some.inj (hi.symm.trans hc)).symm
    refine { QRely.refl g c with
      hand := fun a => ?_, holder := Iff.rfl, used := fun hc => absurd hc hnotj,
      last := fun hc => absurd hc hnotj, queue := fun _ => ⟨[], (List.append_nil _).symm⟩ }
    rcases eq_or_ne a g.first with rfl | hne
    · rw [hfirst, hown]
      exact iff_of_false (fun hc => hj (Place.hand.inj (Option.some.inj hc)).symm)
        fun hc => hand_ne_chain (Option.some.inj hc).symm
    · rw [hother hne]

/-- A producer writes to the node in its hand. -/
theorem qkept_hand [DecidableEq α] (hS : QShared g c) (h : QOk consumer i g c l)
    (hn : c.own n = some (.hand i)) (hnode : l'.node = l.node) (hlocks : l'.locks = l.locks)
    (hconsumes : ∀ p, l' ≠ .consuming p) (hstage : QPcOk g' c l')
    (hfields : g'.first = g.first ∧ g'.divider = g.divider ∧ g'.last = g.last ∧ g'.locked = g.locked)
    (hnext : ∀ a, a ≠ n → g'.next a = g.next a) (hdata : ∀ a, a ≠ n → g'.data a = g.data a)
    (hsome : (g'.data n).isSome = true) : QKept consumer i g c none (g', l') := by
  obtain ⟨hfirst, hdivider, hlast, hlocked⟩ := hfields
  have hchain : c.chain g' = c.chain g := by
    unfold QGhost.chain
    rw [hdivider]
  have hne : ∀ {a}, a ∈ c.chain g → a ≠ n := by
    rintro a ha rfl
    exact hS.not_mem hn ha
  refine ⟨c, ⟨fun a => ?_, ?_, fun a => ?_, ?_, ?_⟩, ⟨fun a => ?_, ?_,
    fun p hp => absurd hp (hconsumes p), hstage⟩, fun j hj => ?_, fun values hv => ⟨values, rfl, ?_⟩⟩
  · rcases eq_or_ne a n with rfl | han
    · rw [hn]
      exact iff_of_true hsome rfl
    · rw [hdata a han]
      exact hS.constructed a
  · rw [hchain]
    exact hS.nodup
  · rw [hchain]
    exact hS.mem a
  · rw [hchain, hfirst, hlast]
    exact hS.hooked.congr fun a ha => hnext a (hne ha)
  · rw [hlocked]
    exact hS.locked
  · rw [hnode]
    exact h.hand a
  · rw [hlocks]
    exact h.holder
  · have hnotj : ∀ {a}, c.own a = some (.hand j) → a ≠ n := by
      rintro a ha rfl
      exact hj (Place.hand.inj (Option.some.inj (ha.symm.trans hn)))
    exact { QRely.refl g c with
      handData := fun a ha => hdata a (hnotj ha)
      last := fun _ => ⟨hlast, hnext _ (hne hS.hooked.tail_mem)⟩
      divider := fun _ => hdivider
      queueData := fun _ a ha => hdata a (hne (mem_chain_of_queue ha)) }
  · have hsame : c.queue.map g'.data = c.queue.map g.data :=
      List.map_congr_left fun a ha => hdata a (hne (mem_chain_of_queue ha))
    exact hsame.trans hv

/-- A new node. -/
theorem qkept_allocate [DecidableEq α] [Inhabited α] {v : α} (hS : QShared g c)
    (h : QOk consumer i g c (.producing (.allocate v))) (hn : (g.data n).isSome = false) :
    QKept consumer i g c none
      ({ g with
        next := Function.update g.next n none
        data := Function.update g.data n (some default) }, .producing (.write n v)) := by
  have hown : c.own n = none := by
    rw [← Option.not_isSome_iff_eq_none, ← hS.constructed, hn]
    exact Bool.false_ne_true
  have hne : ∀ {a o}, c.own a = some o → a ≠ n := by
    rintro a o ha rfl
    exact Option.some_ne_none o (ha.symm.trans hown)
  have hchain : ∀ {a}, a ∈ c.chain g → a ≠ n := fun ha => hne ((hS.mem _).mp ha)
  let c' : QGhost ι := { c with own := Function.update c.own n (some (.hand i)) }
  have hself : c'.own n = some (.hand i) := Function.update_self ..
  have hother : ∀ {a}, a ≠ n → c'.own a = c.own a := fun hne => Function.update_of_ne hne ..
  refine ⟨c', ⟨fun a => ?_, hS.nodup, fun a => ?_, ?_, hS.locked⟩, ⟨fun a => ?_, h.holder,
    fun p hp => absurd hp (producing_ne p), trivial⟩, fun j hj => ?_, fun values hv => ⟨values, rfl, ?_⟩⟩
  · show (Function.update g.data n (some default) a).isSome = true ↔ _
    rcases eq_or_ne a n with rfl | han
    · rw [Function.update_self, hself]
      exact iff_of_true rfl rfl
    · rw [Function.update_of_ne han, hother han]
      exact hS.constructed a
  · rcases eq_or_ne a n with rfl | han
    · rw [hself]
      exact iff_of_false (fun ha => hchain ha rfl) fun hc => hand_ne_chain (Option.some.inj hc)
    · rw [hother han]
      exact hS.mem a
  · exact hS.hooked.congr fun a ha => Function.update_of_ne (hchain ha) ..
  · rcases eq_or_ne a n with rfl | han
    · exact iff_of_true hself rfl
    · rw [hother han, h.hand a]
      exact iff_of_false (Option.some_ne_none a).symm fun hc => han (Option.some.inj hc).symm
  · refine { QRely.refl g c with
      hand := fun a => ?_
      handData := fun a ha => Function.update_of_ne (hne ha) ..
      last := fun _ => ⟨rfl, Function.update_of_ne (hchain hS.hooked.tail_mem) ..⟩
      holder := Iff.rfl
      used := fun _ => id
      queue := fun _ => ⟨[], (List.append_nil _).symm⟩
      queueData := fun _ a ha => Function.update_of_ne (hchain (mem_chain_of_queue ha)) .. }
    rcases eq_or_ne a n with rfl | han
    · rw [hself, hown]
      exact iff_of_false (fun hc => hj (Place.hand.inj (Option.some.inj hc)).symm)
        (Option.some_ne_none _).symm
    · rw [hother han]
  · have hsame : c.queue.map (Function.update g.data n (some default)) = c.queue.map g.data :=
      List.map_congr_left fun a ha => Function.update_of_ne (hchain (mem_chain_of_queue ha)) ..
    exact hsame.trans hv

/-- The last node points to the new one. -/
theorem qkept_link [DecidableEq α] {v : α} (hS : QShared g c)
    (h : QOk consumer i g c (.producing (.link n v))) :
    QKept consumer i g c none
      ({ g with next := Function.update g.next g.last (some n) }, .producing (.publish n v)) := by
  have hi : c.holder = some i := h.holder.mpr rfl
  refine ⟨c, ⟨hS.constructed, hS.nodup, hS.mem, hS.hooked.assign _, hS.locked⟩, ⟨h.hand, h.holder,
    fun p hp => absurd hp (producing_ne p), h.stage, Function.update_self ..⟩, fun j hj => ?_,
    fun values hv => ⟨values, rfl, hv⟩⟩
  exact { QRely.refl g c with
    last := fun hc => absurd (Option.some.inj (hi.symm.trans hc)).symm hj }

/-- **The new node is published**, and its value is the last one of the queue. -/
theorem qkept_publish [DecidableEq α] {v : α} (hS : QShared g c)
    (h : QOk consumer i g c (.producing (.publish n v))) :
    QKept consumer i g c (some (.push v)) ({ g with last := n }, .producing .pushUnlock) := by
  have hi : c.holder = some i := h.holder.mpr rfl
  have hn : c.own n = some (.hand i) := (h.hand n).mpr rfl
  have hnot := hS.not_mem hn
  obtain ⟨hv, hnext⟩ : g.data n = some v ∧ g.next g.last = some n := h.stage
  -- the thread hands its node over to the chain
  let c' : QGhost ι :=
    { c with own := Function.update c.own n (some .chain), queue := c.queue ++ [n] }
  have hchain : c'.chain { g with last := n } = c.chain g ++ [n] := by
    show c.used ++ g.divider :: (c.queue ++ [n]) = (c.used ++ g.divider :: c.queue) ++ [n]
    rw [List.append_assoc, List.cons_append]
  have hself : c'.own n = some .chain := Function.update_self ..
  have hother : ∀ {a}, a ≠ n → c'.own a = c.own a := fun hne => Function.update_of_ne hne ..
  refine ⟨c', ⟨fun a => ?_, ?_, fun a => ?_, ?_, hS.locked⟩, ⟨fun a => ?_, h.holder,
    fun p hp => absurd hp (producing_ne p), trivial⟩, fun j hj => ?_, fun values hvalues => ?_⟩
  · rw [hS.constructed a]
    rcases eq_or_ne a n with rfl | hne
    · rw [hself, hn]
      exact iff_of_true rfl rfl
    · rw [hother hne]
  · rw [hchain]
    refine hS.nodup.append (List.nodup_singleton n) fun a ha hmem => ?_
    exact hnot (List.mem_singleton.mp hmem ▸ ha)
  · rw [hchain, List.mem_append, List.mem_singleton]
    rcases eq_or_ne a n with rfl | hne
    · rw [hself]
      exact iff_of_true (Or.inr rfl) rfl
    · rw [hother hne, ← hS.mem a]
      exact or_iff_left hne
  · rw [hchain]
    exact hS.hooked.extend hnext hnot hS.nodup
  · rcases eq_or_ne a n with rfl | hne
    · rw [hself]
      exact iff_of_false (fun hc => hand_ne_chain (Option.some.inj hc).symm)
        (Option.some_ne_none _).symm
    · rw [hother hne, h.hand a]
      exact iff_of_false (fun hc => hne (Option.some.inj hc).symm) (Option.some_ne_none a).symm
  · -- no other producer relies on the last node, since this one has the lock
    have hnotj : c.holder ≠ some j := fun hc => hj (Option.some.inj (hi.symm.trans hc)).symm
    refine { QRely.refl g c with
      hand := fun a => ?_
      holder := Iff.rfl
      used := fun _ => id
      last := fun hc => absurd hc hnotj
      queue := fun _ => ⟨[n], rfl⟩ }
    rcases eq_or_ne a n with rfl | hne
    · rw [hself, hn]
      exact iff_of_false (fun hc => hand_ne_chain (Option.some.inj hc).symm)
        fun hc => hj (Place.hand.inj (Option.some.inj hc)).symm
    · rw [hother hne]
  · refine ⟨values ++ [v], rfl, ?_⟩
    show (c.queue ++ [n]).map g.data = (values ++ [v]).map some
    rw [List.map_append, List.map_append, hvalues]
    exact congrArg (values.map some ++ [·]) hv

/-- **The new divider is published**: the value has left the queue, and the old divider may
be reused. -/
theorem qkept_store [DecidableEq α] {v : α} (hS : QShared g c)
    (h : QOk consumer i g c (.consuming (.store n v))) :
    QKept consumer i g c (some (.pop v)) ({ g with divider := n }, .idle) := by
  have hi := h.consumes _ rfl
  obtain ⟨⟨ns, hns⟩, hv⟩ : (∃ ns, c.queue = n :: ns) ∧ g.data n = some v := h.stage
  let c' : QGhost ι := { c with used := c.used ++ [g.divider], queue := ns }
  -- the list of nodes is the same, it is only divided behind the next node
  have hchain : c'.chain { g with divider := n } = c.chain g := by
    show (c.used ++ [g.divider]) ++ n :: ns = c.used ++ g.divider :: c.queue
    rw [hns, List.append_assoc, List.singleton_append]
  refine ⟨c', ⟨hS.constructed, ?_, fun a => ?_, ?_, hS.locked⟩,
    ⟨h.hand, h.holder, fun p hp => absurd hp (idle_ne p), trivial⟩, fun j hj => ?_,
    fun values hvalues => ?_⟩
  · rw [hchain]
    exact hS.nodup
  · rw [hchain]
    exact hS.mem a
  · rw [hchain]
    exact hS.hooked
  · have hnotj : j ≠ consumer := fun hc => hj (hc.trans hi.symm)
    exact { QRely.refl g c with
      hand := fun _ => Iff.rfl
      holder := Iff.rfl
      used := fun _ _ => List.append_ne_nil_of_right_ne_nil _ (List.cons_ne_nil _ _)
      divider := fun hc => absurd hc hnotj
      queue := fun hc => absurd hc hnotj }
  · unfold Values at hvalues
    rw [hns] at hvalues
    cases values with
    | nil => cases hvalues
    | cons w values =>
      rw [List.map_cons, List.map_cons, hv] at hvalues
      obtain ⟨hw, hrest⟩ := List.cons.inj hvalues
      refine ⟨values, ?_, hrest⟩
      show run QueueOp.step (w :: values) [.pop v] = .ok values
      rw [run, QueueOp.step, List.head?_cons, if_pos hw.symm]
      rfl

/-- The divider points to the first node of the queue. -/
theorem QShared.divider_next (h : QShared g c) {n : Addr} {ns : List Addr}
    (hqueue : c.queue = n :: ns) : g.next g.divider = some n := by
  have hhooked := h.hooked
  unfold QGhost.chain at hhooked
  rw [hqueue] at hhooked
  exact hhooked.next_eq

/-- The divider is a constructed node. -/
theorem QShared.divider_data (h : QShared g c) : (g.data g.divider).isSome = true :=
  h.isSome_of_mem (List.mem_append_right _ (List.mem_cons_self ..))

/-- What the consumer follows from the divider. -/
theorem QShared.loadNext_divider (h : QShared g c) {n : Addr} {ns : List Addr}
    (hqueue : c.queue = n :: ns) : g.loadNext g.divider = .ok n := by
  obtain ⟨w, hw⟩ := Option.isSome_iff_exists.mp h.divider_data
  rw [MpscQueue.loadNext, hw, h.divider_next hqueue]

end Steps

/-! ## All accesses -/

section Kept

variable {consumer i : ι} {g : MpscQueue α} {c : QGhost ι}

/-- Every step of a producer keeps the order. -/
theorem qkept_producer [DecidableEq α] [Inhabited α] {p : Producer α} {ch : QueueChoice α}
    (hS : QShared g c) (h : QOk consumer i g c (.producing p)) {r : MpscQueue α × QueuePc α}
    (hstep : p.step ch g = .ok r) :
    QKept consumer i g c (queueLinearizes g (.producing p) ch) r := by
  have hhand : ∀ {n}, p.node = some n → c.own n = some (.hand i) := fun hn => (h.hand _).mpr hn
  cases p with
  | getLock v =>
    obtain rfl := Except.ok.inj hstep
    exact qkept_wait hS h rfl rfl trivial
  | check v =>
    obtain rfl := Except.ok.inj hstep
    have hempty := hS.first_eq_divider_iff
    split
    next => exact qkept_local hS h rfl rfl (fun q hq => absurd hq (producing_ne q)) trivial
    -- a node in front of the divider has been read
    next hne =>
      exact qkept_local hS h rfl rfl (fun q hq => absurd hq (producing_ne q))
        (fun hused => hne (hempty.mpr hused))
  | take v => exact qkept_take hS h hstep
  | reset n v =>
    obtain ⟨g', hstore, rfl⟩ := map_ok hstep
    have hn := hhand rfl
    rw [MpscQueue.storeNext, if_pos (hS.isSome_of_own hn)] at hstore
    obtain rfl := Except.ok.inj hstore
    exact qkept_hand hS h hn rfl rfl producing_ne trivial ⟨rfl, rfl, rfl, rfl⟩
      (fun a ha => Function.update_of_ne ha ..) (fun a _ => rfl) (hS.isSome_of_own hn)
  | takeUnlock n v =>
    obtain rfl := Except.ok.inj hstep
    exact qkept_unlock hS h rfl rfl rfl producing_ne trivial
  | allocUnlock v =>
    obtain rfl := Except.ok.inj hstep
    exact qkept_unlock hS h rfl rfl rfl producing_ne trivial
  | allocate v =>
    cases ch with
    | node n =>
      unfold Producer.step at hstep
      dsimp only at hstep
      split at hstep
      next => cases hstep
      next hn =>
        obtain rfl := Except.ok.inj hstep
        exact qkept_allocate hS h (Bool.eq_false_iff.mpr hn)
    | _ => cases hstep
  | write n v =>
    obtain ⟨g', hstore, rfl⟩ := map_ok hstep
    have hn := hhand rfl
    rw [MpscQueue.storeData, if_pos (hS.isSome_of_own hn)] at hstore
    obtain rfl := Except.ok.inj hstore
    have hself : Function.update g.data n (some v) n = some v := Function.update_self ..
    refine qkept_hand hS h hn rfl rfl producing_ne hself ⟨rfl, rfl, rfl, rfl⟩ (fun a _ => rfl)
      (fun a ha => Function.update_of_ne ha ..) ?_
    show (Function.update g.data n (some v) n).isSome = true
    rw [hself]
    rfl
  | pushLock n v =>
    obtain rfl := Except.ok.inj hstep
    exact qkept_wait hS h rfl rfl h.stage
  | link n v =>
    obtain ⟨g', hstore, rfl⟩ := map_ok hstep
    rw [MpscQueue.storeNext, if_pos (hS.isSome_of_mem hS.hooked.tail_mem)] at hstore
    obtain rfl := Except.ok.inj hstore
    exact qkept_link hS h
  | publish n v =>
    obtain rfl := Except.ok.inj hstep
    exact qkept_publish hS h
  | pushUnlock =>
    obtain rfl := Except.ok.inj hstep
    exact qkept_unlock hS h rfl rfl rfl (fun q => idle_ne q) trivial

/-- So does every step of the consumer. -/
theorem qkept_consumer [DecidableEq α] {p : Consumer α} {ch : QueueChoice α} (hS : QShared g c)
    (h : QOk consumer i g c (.consuming p)) {r : MpscQueue α × QueuePc α}
    (hstep : p.step g = .ok r) :
    QKept consumer i g c (queueLinearizes g (.consuming p) ch) r := by
  have hi := h.consumes _ rfl
  cases p with
  | loadLast divider =>
    obtain rfl := Except.ok.inj hstep
    obtain rfl : divider = g.divider := h.stage
    have hempty := hS.divider_eq_last_iff
    show QKept consumer i g c (if g.divider = g.last then some .empty else none) _
    split
    next heq =>
      have hqueue := hempty.mp heq
      refine ⟨c, hS, ⟨h.hand, h.holder, fun p hp => absurd hp (idle_ne p), trivial⟩,
        fun j _ => QRely.refl g c, fun values hv => ⟨values, ?_, hv⟩⟩
      have hvalues : values = [] := by
        unfold Values at hv
        rw [hqueue, List.map_nil] at hv
        exact List.map_eq_nil_iff.mp hv.symm
      rw [hvalues]
      rfl
    next hne => exact qkept_local hS h rfl rfl (fun _ _ => hi) ⟨rfl, fun hq => hne (hempty.mpr hq)⟩
  | readNext divider =>
    obtain ⟨n, hload, rfl⟩ := map_ok hstep
    obtain ⟨rfl, hne⟩ : divider = g.divider ∧ c.queue ≠ [] := h.stage
    obtain ⟨q, qs, hqueue⟩ := List.exists_cons_of_ne_nil hne
    obtain rfl : q = n := Except.ok.inj ((hS.loadNext_divider hqueue).symm.trans hload)
    exact qkept_local hS h rfl rfl (fun _ _ => hi) ⟨qs, hqueue⟩
  | readData n =>
    unfold Consumer.step at hstep
    dsimp only at hstep
    split at hstep
    next v hv =>
      obtain rfl := Except.ok.inj hstep
      exact qkept_local hS h rfl rfl (fun _ _ => hi) ⟨h.stage, hv⟩
    next => cases hstep
  | store n v =>
    obtain rfl := Except.ok.inj hstep
    exact qkept_store hS h

/-- **What every access keeps.** -/
theorem qkept [DecidableEq ι] [DecidableEq α] [Inhabited α] {l : QueuePc α} {ch : QueueChoice α}
    (hS : QShared g c) (h : QOk consumer i g c l)
    {r : MpscQueue α × QueuePc α} (hstep : queueAct consumer i ch g l = .ok r) :
    QKept consumer i g c (queueLinearizes g l ch) r := by
  cases l with
  | idle =>
    cases ch with
    | push v =>
      obtain rfl := Except.ok.inj hstep
      exact qkept_local hS h rfl rfl (fun q hq => absurd hq (producing_ne q)) trivial
    | tryPop =>
      unfold queueAct at hstep
      dsimp only at hstep
      split at hstep
      next hi =>
        obtain rfl := Except.ok.inj hstep
        exact qkept_local hS h rfl rfl (fun _ _ => hi) rfl
      next => cases hstep
    | _ => cases hstep
  | producing p => exact qkept_producer hS h hstep
  | consuming p => exact qkept_consumer hS h hstep

/-- **No access leaves the constructed nodes.** -/
theorem queue_access_ok [DecidableEq ι] [Inhabited α] {l : QueuePc α} {ch : QueueChoice α}
    (hS : QShared g c) (h : QOk consumer i g c l) : queueAct consumer i ch g l ≠ .error .badAccess := by
  have hhand : ∀ {n}, l.node = some n → (g.data n).isSome = true := fun hn =>
    hS.isSome_of_own ((h.hand _).mpr hn)
  intro hstep
  cases l with
  | idle =>
    cases ch with
    | tryPop =>
      unfold queueAct at hstep
      dsimp only at hstep
      split at hstep <;> cases hstep
    | _ => cases hstep
  | producing p =>
    cases p with
    | take v =>
      obtain ⟨m, used, -, hload', -⟩ := hS.take h.stage
      have hload := map_error hstep
      rw [hload'] at hload
      cases hload
    | reset n v =>
      have hload := map_error hstep
      rw [MpscQueue.storeNext, if_pos (hhand rfl)] at hload
      cases hload
    | allocate v =>
      cases ch with
      | node n =>
        unfold queueAct Producer.step at hstep
        dsimp only at hstep
        split at hstep <;> cases hstep
      | _ => cases hstep
    | write n v =>
      have hload := map_error hstep
      rw [MpscQueue.storeData, if_pos (hhand rfl)] at hload
      cases hload
    | link n v =>
      have hload := map_error hstep
      rw [MpscQueue.storeNext, if_pos (hS.isSome_of_mem hS.hooked.tail_mem)] at hload
      cases hload
    | _ => cases hstep
  | consuming p =>
    cases p with
    | loadLast divider => cases hstep
    | readNext divider =>
      obtain ⟨rfl, hne⟩ : divider = g.divider ∧ c.queue ≠ [] := h.stage
      obtain ⟨q, qs, hqueue⟩ := List.exists_cons_of_ne_nil hne
      have hload := map_error hstep
      rw [hS.loadNext_divider hqueue] at hload
      cases hload
    | readData n =>
      obtain ⟨ns, hqueue⟩ : ∃ ns, c.queue = n :: ns := h.stage
      have hsome := hS.isSome_of_mem (mem_chain_of_queue (hqueue ▸ List.mem_cons_self ..) : n ∈ _)
      obtain ⟨w, hw⟩ := Option.isSome_iff_exists.mp hsome
      unfold queueAct Consumer.step at hstep
      dsimp only at hstep
      rw [hw] at hstep
      cases hstep
    | store n v => cases hstep

end Kept

/-! ## Runs -/

section Runs

variable [Inhabited α]

/-- A queue without values that no thread works on. -/
def Unused (ι : Type) (g : MpscQueue α) : Prop :=
  ∃ c : QGhost ι, QShared g c ∧ c.queue = [] ∧ c.holder = none ∧ ∀ a i, c.own a ≠ some (.hand i)

/-- A new queue has only its dummy. -/
theorem create_unused (dummy : Addr) : Unused ι (MpscQueue.create (α := α) dummy) := by
  let c : QGhost ι := ⟨Function.update (fun _ => none) dummy (some .chain), [], [], none⟩
  have hchain : c.chain (MpscQueue.create (α := α) dummy) = [dummy] := rfl
  have hself : c.own dummy = some .chain := Function.update_self dummy (some Place.chain) (fun _ => none)
  have hother : ∀ {a}, a ≠ dummy → c.own a = none := fun hne =>
    Function.update_of_ne hne (some Place.chain) (fun _ => none)
  refine ⟨c, ⟨fun a => ?_, ?_, fun a => ?_, hooked_self _ dummy,
    iff_of_false Bool.false_ne_true fun hc => hc rfl⟩, rfl, rfl, fun a i => ?_⟩
  · show (Function.update (fun _ => none) dummy (some (default : α)) a).isSome = true ↔ _
    rcases eq_or_ne a dummy with rfl | hne
    · rw [hself, Function.update_self]
      exact iff_of_true rfl rfl
    · rw [hother hne, Function.update_of_ne hne]
      exact Iff.rfl
  · exact List.nodup_singleton dummy
  · rw [hchain, List.mem_singleton]
    rcases eq_or_ne a dummy with rfl | hne
    · exact iff_of_true rfl hself
    · rw [hother hne]
      exact iff_of_false hne (Option.some_ne_none _).symm
  · rcases eq_or_ne a dummy with rfl | hne
    · rw [hself]
      exact fun hc => hand_ne_chain (Option.some.inj hc).symm
    · rw [hother hne]
      exact (Option.some_ne_none _).symm

/-- Nodes that are made in advance are not used either. -/
theorem Unused.addSpare {g : MpscQueue α} (h : Unused ι g) (n : Addr) :
    Unused ι (g.addSpare n) := by
  obtain ⟨c, hS, hqueue, hholder, hhand⟩ := h
  unfold MpscQueue.addSpare
  split
  next => exact ⟨c, hS, hqueue, hholder, hhand⟩
  next hn =>
    have hnot : n ∉ c.chain g := fun hmem => hn (hS.isSome_of_mem hmem)
    let c' : QGhost ι := { c with own := Function.update c.own n (some .chain), used := n :: c.used }
    have hself : c'.own n = some .chain := Function.update_self ..
    have hother : ∀ {a}, a ≠ n → c'.own a = c.own a := fun hne => Function.update_of_ne hne ..
    refine ⟨c', ⟨fun a => ?_, List.nodup_cons.mpr ⟨hnot, hS.nodup⟩, fun a => ?_,
      hS.hooked.prepend hnot, hS.locked⟩, hqueue, hholder, fun a i => ?_⟩
    · show (Function.update g.data n (some default) a).isSome = true ↔ _
      rcases eq_or_ne a n with rfl | hne
      · rw [hself, Function.update_self]
        exact iff_of_true rfl rfl
      · rw [hother hne, Function.update_of_ne hne]
        exact hS.constructed a
    · show a ∈ n :: c.chain g ↔ _
      rw [List.mem_cons]
      rcases eq_or_ne a n with rfl | hne
      · exact iff_of_true (Or.inl rfl) hself
      · rw [hother hne, or_iff_right hne]
        exact hS.mem a
    · rcases eq_or_ne a n with rfl | hne
      · rw [hself]
        exact fun hc => hand_ne_chain (Option.some.inj hc).symm
      · rw [hother hne]
        exact hhand a i

/-- So nothing is used when the threads start. -/
theorem queueStart_unused (ι : Type) (dummy : Addr) (spare : List Addr) :
    Unused ι (queueStart (α := α) ι dummy spare).shared :=
  List.foldlRecOn (motive := Unused ι) spare MpscQueue.addSpare (create_unused dummy)
    fun _ h n _ => h.addSpare n

/-- The invariant of a run, for some ghost state, while the queue holds `values`. -/
def QSound (consumer : ι) (s : Threads ι (MpscQueue α) (QueuePc α)) (values : List α) : Prop :=
  ∃ c, QShared s.shared c ∧ (∀ i, QOk consumer i s.shared c (s.locals i)) ∧ Values s.shared c values

/-- Nobody has pushed anything. -/
theorem queueStart_sound (consumer : ι) (dummy : Addr) (spare : List Addr) :
    QSound consumer (queueStart (α := α) ι dummy spare) [] := by
  obtain ⟨c, hS, hqueue, hholder, hhand⟩ := queueStart_unused (α := α) ι dummy spare
  refine ⟨c, hS, fun i => ⟨fun a => iff_of_false (hhand a i) (Option.some_ne_none a).symm, ?_,
    fun p hp => absurd hp (idle_ne p), trivial⟩, by rw [Values, hqueue]; rfl⟩
  rw [hholder]
  exact iff_of_false (Option.some_ne_none i).symm Bool.false_ne_true

variable [DecidableEq ι] [DecidableEq α] {consumer : ι} {dummy : Addr} {spare : List Addr}
  {schedule : List (ι × QueueChoice α)} {s : Threads ι (MpscQueue α) (QueuePc α)}

/-- A step of any thread is what it emits, in a queue of the same values. -/
theorem QSound.step {s' : Threads ι (MpscQueue α) (QueuePc α)} {e : ι × QueueChoice α}
    {values : List α} (h : QSound consumer s values)
    (hstep : Threads.step (queueAct consumer) s e = .ok s') :
    ∃ values', run QueueOp.step values
        (queueLinearizes s.shared (s.locals e.1) e.2).toList = .ok values' ∧
      QSound consumer s' values' := by
  obtain ⟨c, hS, hOk, hvalues⟩ := h
  obtain ⟨g, l, hact, rfl⟩ := Threads.step_ok hstep
  obtain ⟨c', hS', hOk', hrely, heffect⟩ := qkept hS (hOk e.1) hact
  obtain ⟨values', hrun, hvalues'⟩ := heffect values hvalues
  refine ⟨values', hrun, c', hS', ?_, hvalues'⟩
  show ∀ j, QOk consumer j g c' (Function.update s.locals e.1 l j)
  rw [Function.forall_update_iff s.locals (p := fun j l => QOk consumer j g c' l)]
  exact ⟨hOk', fun j hj => (hOk j).stable (hrely j hj)⟩

/-- **First in, first out.** Whatever the order of the accesses of the producers and the consumer,
the pushes and pops in the order of their linearization points are a run of a plain queue; "empty"
was only seen when it was empty, and what is left is behind the divider. -/
theorem queue_linearizes (hr : runQueue consumer dummy spare schedule = .ok s) :
    ∃ values, run QueueOp.step [] (Threads.emits (queueAct consumer) queueLinearizes
        (queueStart ι dummy spare) schedule) = .ok values ∧
      ∃ nodes, Hooked s.shared.next s.shared.divider s.shared.last (s.shared.divider :: nodes) ∧
        nodes.map s.shared.data = values.map some := by
  obtain ⟨values, hrun, c, hS, -, hvalues⟩ := Threads.run_matches (R := QSound consumer)
    (fun s e s' values h hstep => h.step hstep) (queueStart_sound consumer dummy spare) hr
  exact ⟨values, hrun, c.queue, hS.hooked.behind c.used, hvalues⟩

/-- The consumer looks while the first push is between its two assignments; the second push takes
the node that the pop has left. -/
def popWhilePushing : List (Fin 2 × QueueChoice Nat) :=
  [(1, .push 7), (1, .go), (1, .go), (1, .go), (1, .node 5), (1, .go), (1, .go), (1, .go),
    (0, .tryPop), (0, .go), (1, .go), (0, .tryPop), (0, .go), (1, .go), (0, .go), (0, .go), (0, .go),
    (1, .push 8), (1, .go), (1, .go), (1, .go), (1, .go), (1, .go), (1, .go), (1, .go), (1, .go),
    (1, .go), (1, .go)]

theorem popWhilePushing_ok : ∃ s, runQueue 0 3 [] popWhilePushing = .ok s :=
  exists_of_isOk rfl

theorem queue_linearizes_popWhilePushing :
    ∃ s, runQueue 0 3 [] popWhilePushing = .ok s ∧
      ∃ values, run QueueOp.step [] (Threads.emits (queueAct 0) queueLinearizes
          (queueStart (Fin 2) 3 []) popWhilePushing) = .ok values ∧
        ∃ nodes, Hooked s.shared.next s.shared.divider s.shared.last (s.shared.divider :: nodes) ∧
          nodes.map s.shared.data = values.map some := by
  obtain ⟨s, hs⟩ := popWhilePushing_ok
  exact ⟨s, hs, queue_linearizes hs⟩

example : Threads.emits (queueAct 0) queueLinearizes (queueStart (Fin 2) 3 []) popWhilePushing =
    [.empty, .push 7, .pop 7, .push 8] := by rfl

/-- **No access goes wrong**: no thread follows a pointer that is null, or touches a node that is
not constructed. -/
theorem queue_safe (consumer : ι) (dummy : Addr) (spare : List Addr)
    (schedule : List (ι × QueueChoice α)) :
    runQueue consumer dummy spare schedule ≠ .error .badAccess := by
  have hkeeps : Threads.Keeps (queueAct (α := α) consumer) QShared (QOk consumer)
      (QRely consumer) := by
    intro i ch g c l g' l' hS hOk hact
    obtain ⟨c', hS', hOk', hrely, -⟩ := qkept hS hOk hact
    exact ⟨c', hS', hOk', hrely⟩
  have hstable : Threads.Stable (QOk (ι := ι) (α := α) consumer) (QRely consumer) :=
    fun i g c g' c' l h hrely => h.stable hrely
  obtain ⟨c, hS, hOk, -⟩ := queueStart_sound (ι := ι) (α := α) consumer dummy spare
  exact Threads.run_ne_error hkeeps hstable (fun i ch g c l => queue_access_ok) ⟨c, hS, hOk⟩ schedule

end Runs

end Aoo.LockFree
