import Aoo.Lib.Threads
import Aoo.Lib.LinkedList

/-!
# `concurrent_list`

The lock-free list of `common/lockfree.hpp`, one atomic operation a step. Sources, sinks and
peers are kept in such lists: the audio and the network threads walk over them while others
add and remove items, and a removed node stays in a free list until `reclaim()` finds that
nobody is reading.

A thread that holds the list (`lock()`, `unlock()`) keeps all iterators that it has been given
since and uses them in any order. A node is constructed where `data` is not `none`; every
access to another address is the failure `badAccess`. The allocator may return any address
where no node is, so also one that has just been freed.

The source asks for two things: items are not removed concurrently, and `reclaim()` is called
by threads that do not hold the list; it is called by one thread. `remover` and `reclaimer` stand
for this synchronisation, which is outside of the list.
-/

namespace Aoo.LockFree

open Lib

/-- The address of a node. -/
abbrev Addr := Nat

/-- Why a step is not possible. -/
inductive Fault
  /-- The thread does not do this where it stands. -/
  | disabled
  /-- A node is used that is not constructed. -/
  | badAccess
  deriving DecidableEq, Repr

theorem map_ok {β γ : Type} {x : Except Fault β} {f : β → γ} {z : γ} (h : x.map f = .ok z) :
    ∃ y, x = .ok y ∧ f y = z := by
  cases x with
  | error e => cases h
  | ok y => exact ⟨y, rfl, Except.ok.inj h⟩

theorem map_error {β γ : Type} {x : Except Fault β} {f : β → γ} {e : Fault}
    (h : x.map f = .error e) : x = .error e := by
  cases x with
  | error e' =>
    injection h with h
    rw [h]
  | ok y => cases h

/-- The list and the memory of its nodes, `next_` and `data_`. -/
structure ConcurrentList (ι α : Type) where
  head : Option Addr := none
  free : Option Addr := none
  refcount : BitVec 32 := 0
  next : Addr → Option Addr := fun _ => none
  data : Addr → Option α := fun _ => none
  remover : Option ι := none
  reclaimer : Option ι := none

variable {ι α : Type}

namespace ConcurrentList

/-- `n->next_.load()` -/
def loadNext (g : ConcurrentList ι α) (n : Addr) : Except Fault (Option Addr) :=
  if (g.data n).isSome then .ok (g.next n) else .error .badAccess

def setNext (g : ConcurrentList ι α) (n : Addr) (p : Option Addr) : ConcurrentList ι α :=
  { g with next := Function.update g.next n p }

/-- `n->next_.store(p)` -/
def storeNext (g : ConcurrentList ι α) (n : Addr) (p : Option Addr) :
    Except Fault (ConcurrentList ι α) :=
  if (g.data n).isSome then .ok (g.setNext n p) else .error .badAccess

/-- `base::allocate()`, which has returned `n`, and `new (n) node(v)` -/
def construct (g : ConcurrentList ι α) (n : Addr) (v : α) : Except Fault (ConcurrentList ι α) :=
  if (g.data n).isSome then .error .disabled
  else .ok { g with
    next := Function.update g.next n none
    data := Function.update g.data n (some v) }

/-- `n->~node()` and `base::deallocate(n)` -/
def deallocate (g : ConcurrentList ι α) (n : Addr) : Except Fault (ConcurrentList ι α) :=
  if (g.data n).isSome then .ok { g with data := Function.update g.data n none }
  else .error .badAccess

end ConcurrentList

/-! ## The functions, one atomic operation a step -/

/-- Where a thread is in `emplace_front`. -/
inductive Emplace
  | load (n : Addr)
  | store (n : Addr) (next : Option Addr)
  | cas (n : Addr) (next : Option Addr)
  deriving DecidableEq, Repr

/-- `emplace_front`, behind the construction of the node. `spurious`: the weak compare-exchange
fails although the value is the expected one. -/
def Emplace.step (g : ConcurrentList ι α) (spurious : Bool) :
    Emplace → Except Fault (ConcurrentList ι α × (Emplace ⊕ Addr))
  | .load n => .ok (g, .inl (.store n g.head))
  | .store n next => (g.storeNext n next).map fun g' => (g', .inl (.cas n next))
  | .cas n next =>
    if g.head = next ∧ spurious = false then .ok ({ g with head := some n }, .inr n)
    -- 'next' is updated to the current head
    else .ok (g, .inl (.store n g.head))

/-- Where a thread is in `dispose_list(list)`, or, with `tail = list` and behind the first loop,
in `dispose_node(list)`. -/
inductive Dispose
  | walk (list tail : Addr)
  | load (list tail : Addr)
  | store (list tail : Addr) (head : Option Addr)
  | cas (list tail : Addr) (head : Option Addr)
  deriving DecidableEq, Repr

def disposeNode (n : Addr) : Dispose := .load n n

def disposeList (list : Addr) : Dispose := .walk list list

def Dispose.step (g : ConcurrentList ι α) (spurious : Bool) :
    Dispose → Except Fault (ConcurrentList ι α × (Dispose ⊕ Unit))
  -- get last node in list
  | .walk list tail =>
    (g.loadNext tail).map fun next =>
      match next with
      | some n => (g, .inl (.walk list n))
      | none => (g, .inl (.load list tail))
  | .load list tail => .ok (g, .inl (.store list tail g.free))
  | .store list tail head => (g.storeNext tail head).map fun g' => (g', .inl (.cas list tail head))
  | .cas list tail head =>
    if g.free = head ∧ spurious = false then .ok ({ g with free := some list }, .inr ())
    else .ok (g, .inl (.store list tail g.free))

/-- Where a thread is in `erase`. -/
inductive Erase
  /-- The top of the outer loop. -/
  | load (it : Addr)
  /-- The head is the node; its `next_` is loaded next. -/
  | head (n : Addr)
  | cas (n : Addr) (next : Option Addr)
  /-- The inner loop, at a node before the one to be removed. -/
  | find (it n : Addr)
  /-- `m`, which is to be removed, is behind `n`. -/
  | behind (n m : Addr)
  | unlink (n m : Addr) (next : Option Addr)
  /-- `dispose_node`, then `next` is returned. -/
  | dispose (d : Dispose) (next : Option Addr)
  deriving DecidableEq, Repr

/-- `erase`; the result is the node of the iterator it returns. -/
def Erase.step (g : ConcurrentList ι α) (spurious : Bool) :
    Erase → Except Fault (ConcurrentList ι α × (Erase ⊕ Option Addr))
  | .load it =>
    match g.head with
    | some n => .ok (g, .inl (if n = it then .head n else .find it n))
    -- reached end of list (shouldn't happen)
    | none => .ok (g, .inr none)
  | .head n => (g.loadNext n).map fun next => (g, .inl (.cas n next))
  | .cas n next =>
    if g.head = some n then .ok ({ g with head := next }, .inl (.dispose (disposeNode n) next))
    -- someone pushed a new node in between, try again!
    else .ok (g, .inl (.load n))
  | .find it n =>
    (g.loadNext n).map fun next =>
      match next with
      | some m => (g, .inl (if m = it then .behind n m else .find it m))
      | none => (g, .inr none)
  | .behind n m => (g.loadNext m).map fun next => (g, .inl (.unlink n m next))
  | .unlink n m next =>
    (g.storeNext n next).map fun g' => (g', .inl (.dispose (disposeNode m) next))
  | .dispose d next =>
    (d.step g spurious).map fun r =>
      match r with
      | (g', .inl d') => (g', .inl (.dispose d' next))
      | (g', .inr _) => (g', .inr next)

/-- Where a thread is in `reclaim`. -/
inductive Reclaim
  | loadRefcount
  | exchange
  /-- The second look at the reference count, with the free list `f` in hand. -/
  | cas (f : Addr)
  | putBack (f : Addr)
  | dispose (d : Dispose)
  /-- `destroy_list`, at the head of its loop. -/
  | destroy (n : Option Addr)
  | deallocate (tmp : Addr) (n : Option Addr)
  deriving DecidableEq, Repr

/-- `reclaim`, behind the first look at the free list. -/
def Reclaim.step (g : ConcurrentList ι α) (spurious : Bool) :
    Reclaim → Except Fault (ConcurrentList ι α × (Reclaim ⊕ Bool))
  | .loadRefcount => .ok (g, if g.refcount = 0 then .inl .exchange else .inr false)
  | .exchange =>
    match g.free with
    | some f => .ok ({ g with free := none }, .inl (.cas f))
    -- shouldn't really happen...
    | none => .ok (g, .inr false)
  -- check the refcount again
  | .cas f => .ok (g, .inl (if g.refcount = 0 then .destroy (some f) else .putBack f))
  | .putBack f =>
    if g.free = none then .ok ({ g with free := some f }, .inr false)
    else .ok (g, .inl (.dispose (disposeList f)))
  | .dispose d =>
    (d.step g spurious).map fun r =>
      match r with
      | (g', .inl d') => (g', .inl (.dispose d'))
      | (g', .inr _) => (g', .inr false)
  | .destroy (some tmp) => (g.loadNext tmp).map fun n => (g, .inl (.deallocate tmp n))
  | .destroy none => .ok (g, .inr true)
  | .deallocate tmp n => (g.deallocate tmp).map fun g' => (g', .inl (.destroy n))

/-! ## The threads -/

/-- Where a thread is. -/
inductive Pc
  /-- It does not hold the list. -/
  | unlocked
  /-- It holds the list and is between two calls. -/
  | ready
  | emplacing (e : Emplace)
  | erasing (e : Erase)
  | clearing (d : Dispose)
  | reclaiming (r : Reclaim)
  deriving DecidableEq, Repr

/-- A thread and the nodes of the iterators that it has. -/
structure Local where
  pc : Pc := .unlocked
  its : List Addr := []
  deriving DecidableEq, Repr

/-- What a thread does next, where it has a choice. -/
inductive Choice (α : Type)
  | lock
  | unlock
  | begin
  | increment (it : Addr)
  | dereference (it : Addr)
  /-- With the address that the allocator returns. -/
  | emplaceFront (n : Addr) (v : α)
  | erase (it : Addr)
  | clear
  | reclaim
  /-- The next atomic operation of the call it is in. -/
  | go (spurious : Bool)
  deriving DecidableEq, Repr

/-- A call on the list, by a thread that holds it. -/
def call (i : ι) (g : ConcurrentList ι α) (its : List Addr) :
    Choice α → Except Fault (ConcurrentList ι α × Local)
  | .unlock => .ok ({ g with refcount := g.refcount - 1 }, ⟨.unlocked, []⟩)
  | .begin => .ok (g, ⟨.ready, g.head.toList ++ its⟩)
  | .increment it =>
    if it ∈ its then (g.loadNext it).map fun next => (g, ⟨.ready, next.toList ++ its⟩)
    else .error .disabled
  | .dereference it =>
    if it ∈ its then
      match g.data it with
      | some _ => .ok (g, ⟨.ready, its⟩)
      | none => .error .badAccess
    else .error .disabled
  -- the node is constructed before the list is touched
  | .emplaceFront n v => (g.construct n v).map fun g' => (g', ⟨.emplacing (.load n), its⟩)
  | .erase it =>
    if it ∈ its ∧ g.remover.isNone then
      .ok ({ g with remover := some i }, ⟨.erasing (.load it), its⟩)
    else .error .disabled
  | .clear =>
    if g.remover.isNone then
      match g.head with
      | some list =>
        .ok ({ g with head := none, remover := some i }, ⟨.clearing (disposeList list), its⟩)
      | none => .ok (g, ⟨.ready, its⟩)
    else .error .disabled
  | _ => .error .disabled

/-- One atomic step of the thread `i`. -/
def act (i : ι) (c : Choice α) (g : ConcurrentList ι α) (l : Local) :
    Except Fault (ConcurrentList ι α × Local) :=
  match l.pc, c with
  | .unlocked, .lock => .ok ({ g with refcount := g.refcount + 1 }, ⟨.ready, l.its⟩)
  | .unlocked, .reclaim =>
    if g.reclaimer.isNone then
      -- the first look at the free list
      if g.free.isSome then
        .ok ({ g with reclaimer := some i }, ⟨.reclaiming .loadRefcount, l.its⟩)
      else .ok (g, l)
    else .error .disabled
  | .ready, c => call i g l.its c
  | .emplacing e, .go spurious =>
    (e.step g spurious).map fun r =>
      match r with
      | (g', .inl e') => (g', ⟨.emplacing e', l.its⟩)
      | (g', .inr n) => (g', ⟨.ready, n :: l.its⟩)
  | .erasing e, .go spurious =>
    (e.step g spurious).map fun r =>
      match r with
      | (g', .inl e') => (g', ⟨.erasing e', l.its⟩)
      | (g', .inr next) => ({ g' with remover := none }, ⟨.ready, next.toList ++ l.its⟩)
  | .clearing d, .go spurious =>
    (d.step g spurious).map fun r =>
      match r with
      | (g', .inl d') => (g', ⟨.clearing d', l.its⟩)
      | (g', .inr _) => ({ g' with remover := none }, ⟨.ready, l.its⟩)
  | .reclaiming r, .go spurious =>
    (r.step g spurious).map fun r =>
      match r with
      | (g', .inl r') => (g', ⟨.reclaiming r', l.its⟩)
      | (g', .inr _) => ({ g' with reclaimer := none }, ⟨.unlocked, l.its⟩)
  | _, _ => .error .disabled

/-- An empty list, and threads that do not hold it. -/
def start (ι α : Type) : Threads ι (ConcurrentList ι α) Local where
  shared := {}
  locals _ := {}

/-- The threads take their steps in the order of `schedule`. -/
abbrev runList [DecidableEq ι] (schedule : List (ι × Choice α)) :
    Except Fault (Threads ι (ConcurrentList ι α) Local) :=
  run (Threads.step act) (start ι α) schedule

end Aoo.LockFree
