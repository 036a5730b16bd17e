import Aoo.LockFree.List

/-!
# `unbounded_mpsc_queue`

The queue of `common/lockfree.hpp` through which every thread hands its packets, requests,
events and messages to the one thread that takes them out. It is a linked list with a dummy
node, `divider_`: what is behind it is in the queue, what is in front of it has been read and
is reused by the next `push`. Producers exclude each other with a spin lock; the consumer takes
no lock, it only moves the divider.

A step is one access to the shared memory. A producer holds the lock twice: to get a node
(`get_node`), and to put it behind the last one (`push_node`); in between it writes the value. The
consumer looks whether the queue is empty, follows `next_`, moves the value out and then
publishes the new divider.

Without a lock on its side the consumer must never meet a node that a producer has reused or
has not finished. The result (`queue_linearizes`) says that it does not, for any number of
producers in any order: the pushes and pops are those of a first-in first-out queue, each value
comes out once, and "empty" is only seen when the queue is.
-/

namespace Aoo.LockFree

open Lib

/-- The queue and the memory of its nodes; a node is constructed where `data` is not `none`. -/
structure MpscQueue (α : Type) where
  first : Addr
  divider : Addr
  last : Addr
  locked : Bool := false
  next : Addr → Option Addr := fun _ => none
  data : Addr → Option α

variable {ι α : Type}

namespace MpscQueue

/-- The constructor: one dummy node. -/
def create [Inhabited α] (dummy : Addr) : MpscQueue α where
  first := dummy
  divider := dummy
  last := dummy
  data := Function.update (fun _ => none) dummy (some default)

/-- `reserve` adds an empty node in front, at an address where none is. -/
def addSpare [Inhabited α] (g : MpscQueue α) (n : Addr) : MpscQueue α :=
  if (g.data n).isSome then g
  else { g with
    first := n
    next := Function.update g.next n (some g.first)
    data := Function.update g.data n (some default) }

def loadNext (g : MpscQueue α) (n : Addr) : Except Fault Addr :=
  match g.data n, g.next n with
  | some _, some m => .ok m
  | _, _ => .error .badAccess

def storeNext (g : MpscQueue α) (n : Addr) (p : Option Addr) : Except Fault (MpscQueue α) :=
  if (g.data n).isSome then .ok { g with next := Function.update g.next n p }
  else .error .badAccess

def storeData (g : MpscQueue α) (n : Addr) (v : α) : Except Fault (MpscQueue α) :=
  if (g.data n).isSome then .ok { g with data := Function.update g.data n (some v) }
  else .error .badAccess

end MpscQueue

/-! ## The functions, one access a step -/

/-- Where a producer is in `push` (or `produce`) of the value `v`. -/
inductive Producer (α : Type)
  /-- `get_node`: it waits for the lock. -/
  | getLock (v : α)
  | check (v : α)
  | take (v : α)
  | reset (n : Addr) (v : α)
  | takeUnlock (n : Addr) (v : α)
  /-- Nothing to reuse: it gives the lock back and allocates a node. -/
  | allocUnlock (v : α)
  | allocate (v : α)
  | write (n : Addr) (v : α)
  /-- `push_node`: it waits for the lock. -/
  | pushLock (n : Addr) (v : α)
  | link (n : Addr) (v : α)
  | publish (n : Addr) (v : α)
  | pushUnlock
  deriving DecidableEq, Repr

/-- Where the consumer is in `try_pop` (or `try_consume`). -/
inductive Consumer (α : Type)
  /-- `empty`, with the divider loaded. -/
  | loadLast (divider : Addr)
  | readNext (divider : Addr)
  | readData (n : Addr)
  | store (n : Addr) (v : α)
  deriving DecidableEq, Repr

inductive QueuePc (α : Type)
  | idle
  | producing (p : Producer α)
  | consuming (c : Consumer α)
  deriving DecidableEq, Repr

/-- What a thread does next, where it has a choice. -/
inductive QueueChoice (α : Type)
  | push (v : α)
  | tryPop
  /-- The address that the allocator returns. -/
  | node (n : Addr)
  | go
  deriving DecidableEq, Repr

/-- One access of a producer. -/
def Producer.step [Inhabited α] (ch : QueueChoice α) (g : MpscQueue α) :
    Producer α → Except Fault (MpscQueue α × QueuePc α)
  | .getLock v =>
    .ok ({ g with locked := true }, .producing (if g.locked then .getLock v else .check v))
  -- nodes in front of the divider have been read
  | .check v =>
    .ok (g, .producing (if g.first = g.divider then .allocUnlock v else .take v))
  | .take v =>
    (g.loadNext g.first).map fun m => ({ g with first := m }, .producing (.reset g.first v))
  | .reset n v => (g.storeNext n none).map fun g' => (g', .producing (.takeUnlock n v))
  | .takeUnlock n v => .ok ({ g with locked := false }, .producing (.write n v))
  | .allocUnlock v => .ok ({ g with locked := false }, .producing (.allocate v))
  | .allocate v =>
    match ch with
    | .node n =>
      if (g.data n).isSome then .error .disabled
      else .ok ({ g with
        next := Function.update g.next n none
        data := Function.update g.data n (some default) }, .producing (.write n v))
    | _ => .error .disabled
  | .write n v => (g.storeData n v).map fun g' => (g', .producing (.pushLock n v))
  | .pushLock n v =>
    .ok ({ g with locked := true }, .producing (if g.locked then .pushLock n v else .link n v))
  | .link n v => (g.storeNext g.last (some n)).map fun g' => (g', .producing (.publish n v))
  | .publish n _ => .ok ({ g with last := n }, .producing .pushUnlock)
  | .pushUnlock => .ok ({ g with locked := false }, .idle)

/-- One access of the consumer. -/
def Consumer.step (g : MpscQueue α) : Consumer α → Except Fault (MpscQueue α × QueuePc α)
  | .loadLast divider =>
    .ok (g, if divider = g.last then .idle else .consuming (.readNext divider))
  | .readNext divider => (g.loadNext divider).map fun n => (g, .consuming (.readData n))
  | .readData n =>
    match g.data n with
    | some v => .ok (g, .consuming (.store n v))
    | none => .error .badAccess
  -- from here on a producer may reuse the old dummy node
  | .store n _ => .ok ({ g with divider := n }, .idle)

/-- One access of the thread `i`; only the thread `consumer` takes values out. -/
def queueAct [DecidableEq ι] [Inhabited α] (consumer i : ι) (ch : QueueChoice α) (g : MpscQueue α) :
    QueuePc α → Except Fault (MpscQueue α × QueuePc α)
  | .idle =>
    match ch with
    | .push v => .ok (g, .producing (.getLock v))
    | .tryPop =>
      if i = consumer then .ok (g, .consuming (.loadLast g.divider)) else .error .disabled
    | _ => .error .disabled
  | .producing p => p.step ch g
  | .consuming c => c.step g

/-! ## The queue as a queue -/

inductive QueueOp (α : Type)
  | push (v : α)
  | pop (v : α)
  /-- `try_pop` has found nothing. -/
  | empty
  deriving DecidableEq, Repr

/-- A first-in first-out queue. -/
def QueueOp.step [DecidableEq α] (values : List α) : QueueOp α → Except Unit (List α)
  | .push v => .ok (values ++ [v])
  | .pop v => if values.head? = some v then .ok values.tail else .error ()
  | .empty => if values = [] then .ok [] else .error ()

/-- The access in which an operation takes effect. -/
def queueLinearizes (g : MpscQueue α) (l : QueuePc α) (_ : QueueChoice α) : Option (QueueOp α) :=
  match l with
  | .producing (.publish _ v) => some (.push v)
  | .consuming (.loadLast divider) => if divider = g.last then some .empty else none
  | .consuming (.store _ v) => some (.pop v)
  | _ => none

/-- A new queue with the spare nodes `spare`, and threads that are idle. -/
def queueStart [Inhabited α] (ι : Type) (dummy : Addr) (spare : List Addr) :
    Threads ι (MpscQueue α) (QueuePc α) where
  shared := spare.foldl MpscQueue.addSpare (.create dummy)
  locals _ := .idle

/-- The threads take their steps in the order of `schedule`. -/
abbrev runQueue [DecidableEq ι] [Inhabited α] (consumer : ι) (dummy : Addr) (spare : List Addr)
    (schedule : List (ι × QueueChoice α)) : Except Fault (Threads ι (MpscQueue α) (QueuePc α)) :=
  run (Threads.step (queueAct consumer)) (queueStart ι dummy spare) schedule

end Aoo.LockFree
