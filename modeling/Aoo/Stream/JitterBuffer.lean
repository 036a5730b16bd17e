import Aoo.Lib.Ring
import Aoo.Stream.FrameStorage

/-!
# The jitter buffer of a sink

`jitter_buffer` of `packet_buffer.cpp`: a ring of blocks between `tail` and
`head`, with the numbers of the blocks that were pushed and popped last.
`JitterBuffer.Ring` says which blocks the ring holds and which slots are free;
every operation has one lemma about it.

The binary search of `find` runs to the capacity of the vector, not to its size.
`spare` is the storage behind the vector that it then reads.
-/

namespace Aoo.Stream

open Lib

/-- `jitter_buffer` -/
structure JitterBuffer where
  data : List ReceivedBlock := []
  spare : List ReceivedBlock := []
  size : Nat := 0
  head : Nat := 0
  tail : Nat := 0
  lastPushed : Int := -1
  lastPopped : Int := -1
  deriving DecidableEq, Repr

namespace JitterBuffer

/-- `INT32_MIN` -/
def sentinel : Int := -2147483648

def searchThreshold : Nat := 10

def capacity (b : JitterBuffer) : Nat := b.data.length

def empty (b : JitterBuffer) : Bool := decide (b.size = 0)

def full (b : JitterBuffer) : Bool := decide (b.size = b.capacity)

/-- The block in a slot, also behind the end of the vector. -/
def slot (b : JitterBuffer) (i : Nat) : ReceivedBlock := (b.data ++ b.spare).getD i {}

/-- An assignment through a pointer to a block. -/
def modify (b : JitterBuffer) (i : Nat) (f : ReceivedBlock → ReceivedBlock) : JitterBuffer :=
  if i < b.capacity then { b with data := b.data.set i (f (b.slot i)) }
  else { b with spare := b.spare.set (i - b.capacity) (f (b.slot i)) }

/-- `jitter_buffer::reset` -/
def reset (b : JitterBuffer) : JitterBuffer :=
  { b with
    data := b.data.map (·.clear)
    size := 0, head := 0, tail := 0, lastPushed := sentinel, lastPopped := sentinel }

/-- `jitter_buffer::resize`; the vector leaves `spare` behind its end. -/
def resize (b : JitterBuffer) (n : Nat) (spare : List ReceivedBlock) : JitterBuffer :=
  let b := b.reset
  { b with data := b.data.take n ++ List.replicate (n - b.data.length) {}, spare := spare }

def backIndex (b : JitterBuffer) : Nat := if b.head = 0 then b.capacity - 1 else b.head - 1

/-- The linear search from slot `first` to slot `last`. -/
def scan (b : JitterBuffer) (seq : Int) (first last : Nat) : Option Nat :=
  (List.range' first (last - first)).find? fun i => decide ((b.slot i).sequence = seq)

/-- `dofind`, the binary search from slot `first` to slot `last`. -/
def doFind (b : JitterBuffer) (seq : Int) (first last : Nat) : Option Nat :=
  let result := lowerBound (fun i => decide ((b.slot i).sequence < seq)) (last - first) first
    (last - first)
  if result ≠ last ∧ (b.slot result).sequence = seq then some result else none

/-- `jitter_buffer::find`: the slot of the block. -/
def find (b : JitterBuffer) (seq : Int) : Option Nat :=
  if b.empty then none
  else if (b.slot b.backIndex).sequence = seq then some b.backIndex
  else if b.size < searchThreshold then
    if b.head > b.tail then b.scan seq b.tail b.head
    else (b.scan seq 0 b.head).or (b.scan seq b.tail b.capacity)
  else if b.head > b.tail then b.doFind seq b.tail b.head
  else (b.doFind seq 0 b.head).or (b.doFind seq b.tail (b.capacity + b.spare.length))

/-- `jitter_buffer::push`: the new slot, and the buffer. -/
def push (b : JitterBuffer) (seq : Int) : Nat × JitterBuffer :=
  (b.head, { b with
    head := if b.head + 1 = b.capacity then 0 else b.head + 1
    size := b.size + 1
    lastPushed := seq })

/-- A push, and an assignment to the new block. -/
def emplace (b : JitterBuffer) (seq : Int) (f : ReceivedBlock → ReceivedBlock) : JitterBuffer :=
  (b.push seq).2.modify (b.push seq).1 f

/-- `jitter_buffer::pop` -/
def pop (b : JitterBuffer) : JitterBuffer :=
  { b with
    data := b.data.set b.tail (b.slot b.tail).clear
    lastPopped := (b.slot b.tail).sequence
    tail := if b.tail + 1 = b.capacity then 0 else b.tail + 1
    size := b.size - 1 }

def resetHead (b : JitterBuffer) (seq : Int) : JitterBuffer := { b with lastPushed := seq }

def advanceMissing (b : JitterBuffer) : JitterBuffer :=
  if b.lastPopped ≠ sentinel then
    let next := if b.lastPopped = 2147483646 then 0 else b.lastPopped + 1
    { b with lastPopped := next, lastPushed := next }
  else b

def front (b : JitterBuffer) : ReceivedBlock := b.slot b.tail

/-- The slots that an iterator visits from slot `i` on, until it meets the head. -/
def walk (b : JitterBuffer) : (fuel i : Nat) → List Nat
  | 0, _ => []
  | fuel + 1, i =>
    let next := if i + 1 = b.capacity then 0 else i + 1
    i :: if next = b.head then [] else b.walk fuel next

/-- The slots from `begin` to `end`. -/
def indices (b : JitterBuffer) : List Nat := if b.empty then [] else b.walk b.capacity b.tail

/-- The blocks from `tail` to `head`. -/
def blocks (b : JitterBuffer) : List ReceivedBlock :=
  (List.range b.size).map fun i => b.slot ((b.tail + i) % b.capacity)

/-! ## What the ring holds -/

/-- The ring holds the blocks `bs`, oldest first, and behind them the free slots
`fs`. -/
structure Ring (b : JitterBuffer) (bs fs : List ReceivedBlock) : Prop where
  holds : Holds b.data b.tail (bs ++ fs)
  total : bs.length + fs.length = b.capacity
  size : b.size = bs.length
  head : b.head = (b.tail + b.size) % b.capacity

section

variable {b : JitterBuffer} {bs fs : List ReceivedBlock}

theorem slot_of_lt {i : Nat} (hi : i < b.capacity) : b.slot i = b.data.getD i {} :=
  List.getD_append _ _ _ _ hi

/-- An assignment, to the vector or behind it. -/
theorem append_modify (b : JitterBuffer) (j : Nat) (f : ReceivedBlock → ReceivedBlock) :
    (b.modify j f).data ++ (b.modify j f).spare = (b.data ++ b.spare).set j (f (b.slot j)) := by
  unfold JitterBuffer.modify
  split
  next hlt => rw [List.set_append_left _ _ hlt]
  next hge =>
    rw [List.set_append_right _ _ (Nat.not_lt.mp hge)]
    rfl

theorem slot_modify_ne {i j : Nat} (hij : i ≠ j) (f : ReceivedBlock → ReceivedBlock) :
    (b.modify j f).slot i = b.slot i := by
  rw [slot, append_modify, List.getD_eq_getElem?_getD, List.getElem?_set_ne (Ne.symm hij),
    ← List.getD_eq_getElem?_getD]
  rfl

theorem slot_modify_self {j : Nat} (hj : j < b.capacity) (f : ReceivedBlock → ReceivedBlock) :
    (b.modify j f).slot j = f (b.slot j) := by
  rw [slot, append_modify, List.getD_eq_getElem?_getD, List.getElem?_set_self]
  · rfl
  · rw [List.length_append]
    exact Nat.lt_add_right _ hj

theorem Ring.capacity_pos (h : b.Ring bs fs) : 0 < b.capacity :=
  Nat.lt_of_le_of_lt (Nat.zero_le _) h.holds.start

theorem Ring.slot_at (h : b.Ring bs fs) {i : Nat} (hi : i < (bs ++ fs).length) :
    b.slot ((b.tail + i) % b.capacity) = (bs ++ fs)[i] := by
  rw [slot_of_lt (Nat.mod_lt _ h.capacity_pos), List.getD_eq_getElem?_getD]
  have hat := h.holds.at_eq i hi
  rw [List.getElem?_eq_getElem hi] at hat
  exact congrArg (·.getD {}) hat

theorem Ring.blocks_eq (h : b.Ring bs fs) : b.blocks = bs := by
  unfold blocks
  refine List.ext_getElem ?_ fun i h1 h2 => ?_
  · rw [List.length_map, List.length_range, h.size]
  · rw [List.getElem_map, List.getElem_range, h.slot_at (by rw [List.length_append]; omega),
      List.getElem_append_left h2]

theorem Ring.front_eq {x : ReceivedBlock} (h : b.Ring (x :: bs) fs) : b.front = x := by
  have hat := h.slot_at (i := 0) (by simp)
  have hstart : b.tail < b.capacity := h.holds.start
  rw [Nat.add_zero, Nat.mod_eq_of_lt hstart] at hat
  exact hat

/-- Going on by one slot. -/
theorem next_eq {cap i : Nat} (hi : i < cap) :
    (if i + 1 = cap then 0 else i + 1) = (i + 1) % cap := by
  split
  next heq => rw [heq, Nat.mod_self]
  next hne => rw [Nat.mod_eq_of_lt (by omega)]

theorem ring_reset (hcap : 0 < b.capacity) : b.reset.Ring [] (b.data.map (·.clear)) := by
  have hlen : (b.data.map (·.clear)).length = b.capacity := List.length_map ..
  refine ⟨⟨Nat.le_refl _, ?_, fun i hi => ?_⟩, ?_, rfl, ?_⟩
  · show 0 < (b.data.map (·.clear)).length
    omega
  · rw [List.nil_append] at hi ⊢
    show (b.data.map (·.clear))[(0 + i) % (b.data.map (·.clear)).length]? = _
    rw [Nat.zero_add, Nat.mod_eq_of_lt hi]
  · show 0 + (b.data.map (·.clear)).length = (b.data.map (·.clear)).length
    exact Nat.zero_add _
  · exact (Nat.zero_mod _).symm

/-- A block of the queue is changed in its slot. -/
theorem Ring.modify (h : b.Ring bs fs) {i : Nat} (hi : i < bs.length)
    (f : ReceivedBlock → ReceivedBlock) :
    (b.modify ((b.tail + i) % b.capacity) f).Ring (bs.set i (f bs[i])) fs := by
  have hlt : (b.tail + i) % b.capacity < b.capacity := Nat.mod_lt _ h.capacity_pos
  have hat := h.slot_at (i := i) (by rw [List.length_append]; omega)
  rw [List.getElem_append_left hi] at hat
  have hset := h.holds.set (i := i) (by rw [List.length_append]; omega) (f bs[i])
  rw [List.set_append_left _ _ hi] at hset
  rw [JitterBuffer.modify, if_pos hlt, hat]
  have hcap : (b.data.set ((b.tail + i) % b.capacity) (f bs[i])).length = b.capacity :=
    List.length_set
  refine ⟨hset, ?_, ?_, ?_⟩
  · rw [List.length_set]
    exact h.total.trans hcap.symm
  · rw [List.length_set]
    exact h.size
  · show b.head = (b.tail + b.size) % (b.data.set ((b.tail + i) % b.capacity) (f bs[i])).length
    rw [hcap]
    exact h.head

/-- What is behind the vector is not part of the ring. -/
theorem Ring.modify_spare (h : b.Ring bs fs) {j : Nat} (hj : b.capacity ≤ j)
    (f : ReceivedBlock → ReceivedBlock) : (b.modify j f).Ring bs fs := by
  rw [JitterBuffer.modify, if_neg (by omega)]
  exact ⟨h.holds, h.total, h.size, h.head⟩

theorem Ring.emplace {x : ReceivedBlock} (h : b.Ring bs (x :: fs)) (seq : Int)
    (f : ReceivedBlock → ReceivedBlock) : (b.emplace seq f).Ring (bs ++ [f x]) fs := by
  have hcap := h.capacity_pos
  have htotal := h.total
  rw [List.length_cons] at htotal
  have hlt : b.head < b.capacity := by
    rw [h.head]
    exact Nat.mod_lt _ hcap
  have hslot : (b.tail + bs.length) % b.capacity = b.head := by rw [h.head, h.size]
  have hat : b.slot b.head = x := by
    have := h.slot_at (i := bs.length) (by simp)
    rw [hslot] at this
    simpa using this
  have hset := h.holds.set (i := bs.length) (by simp) (f x)
  have hlist : (bs ++ x :: fs).set bs.length (f x) = (bs ++ [f x]) ++ fs := by
    rw [List.set_append_right _ _ (Nat.le_refl _), Nat.sub_self, List.set_cons_zero,
      List.append_assoc, List.singleton_append]
  rw [hlist, show (b.tail + bs.length) % b.data.length = b.head from hslot] at hset
  have hnew : (b.push seq).2.slot b.head = x := hat
  have hmod : b.emplace seq f = { (b.push seq).2 with data := b.data.set b.head (f x) } := by
    unfold JitterBuffer.emplace JitterBuffer.modify
    rw [if_pos (show (b.push seq).1 < (b.push seq).2.capacity from hlt)]
    show { (b.push seq).2 with data := b.data.set b.head (f ((b.push seq).2.slot b.head)) } = _
    rw [hnew]
  have hsame : (b.data.set b.head (f x)).length = b.capacity := List.length_set
  rw [hmod]
  refine ⟨hset, ?_, ?_, ?_⟩
  · rw [List.length_append, List.length_singleton]
    show bs.length + 1 + fs.length = (b.data.set b.head (f x)).length
    omega
  · rw [List.length_append, List.length_singleton]
    show b.size + 1 = bs.length + 1
    rw [h.size]
  · show (if b.head + 1 = b.capacity then 0 else b.head + 1) =
      (b.tail + (b.size + 1)) % (b.data.set b.head (f x)).length
    rw [hsame, next_eq hlt, h.head, Nat.mod_add_mod, Nat.add_assoc]

theorem Ring.pop {x : ReceivedBlock} (h : b.Ring (x :: bs) fs) :
    b.pop.Ring bs (fs ++ [x.clear]) := by
  have htotal := h.total
  rw [List.length_cons] at htotal
  have hstart : b.tail < b.capacity := h.holds.start
  have hfront : b.slot b.tail = x := h.front_eq
  have hholds := h.holds
  rw [List.cons_append] at hholds
  have hpush := hholds.push_full (by
    rw [List.length_cons, List.length_append]
    show bs.length + fs.length + 1 = b.capacity
    omega) x.clear
  rw [List.append_assoc] at hpush
  have hcap : b.pop.capacity = b.capacity := by
    rw [JitterBuffer.pop, capacity, List.length_set]
    rfl
  refine ⟨?_, ?_, ?_, ?_⟩
  · show Holds (b.data.set b.tail (b.slot b.tail).clear)
      (if b.tail + 1 = b.capacity then 0 else b.tail + 1) _
    rw [hfront, next_eq hstart]
    exact hpush
  · rw [hcap, List.length_append, List.length_singleton]
    omega
  · show b.size - 1 = bs.length
    rw [h.size, List.length_cons, Nat.add_sub_cancel]
  · rw [hcap]
    show b.head = ((if b.tail + 1 = b.capacity then 0 else b.tail + 1) + (b.size - 1)) % b.capacity
    have hsize : b.size = bs.length + 1 := h.size
    rw [next_eq hstart, Nat.mod_add_mod, h.head, hsize, Nat.add_sub_cancel, Nat.add_assoc,
      Nat.add_comm 1]

/-- Where the head is: in front of the tail, or behind it once the queue passes
the end of the vector. -/
theorem Ring.head_cases (h : b.Ring bs fs) (hpos : 0 < bs.length) :
    (b.tail < b.head ∧ b.head = b.tail + bs.length ∧ b.head < b.capacity) ∨
      (b.head ≤ b.tail ∧ b.head + b.capacity = b.tail + bs.length) := by
  have hstart : b.tail < b.capacity := h.holds.start
  have htotal := h.total
  have hhead := h.head
  rw [h.size] at hhead
  by_cases hlt : b.tail + bs.length < b.capacity
  · rw [Nat.mod_eq_of_lt hlt] at hhead
    exact Or.inl ⟨by omega, hhead, by omega⟩
  · rw [Nat.mod_eq_sub_mod (by omega), Nat.mod_eq_of_lt (by omega)] at hhead
    exact Or.inr ⟨by omega, by omega⟩

/-- The slots between tail and head are those of the queue. -/
theorem Ring.occupied (h : b.Ring bs fs) (hpos : 0 < bs.length) {j : Nat}
    (hj : if b.head > b.tail then b.tail ≤ j ∧ j < b.head
      else j < b.head ∨ (b.tail ≤ j ∧ j < b.capacity)) :
    ∃ i < bs.length, j = (b.tail + i) % b.capacity := by
  have hstart : b.tail < b.capacity := h.holds.start
  have htotal := h.total
  rcases h.head_cases hpos with ⟨hlt, heq, hcap⟩ | ⟨hle, heq⟩
  · rw [if_pos hlt] at hj
    exact ⟨j - b.tail, by omega, by
      rw [Nat.add_sub_cancel' hj.1, Nat.mod_eq_of_lt (by omega)]⟩
  · rw [if_neg (by omega)] at hj
    rcases hj with hj | hj
    · refine ⟨j + b.capacity - b.tail, by omega, ?_⟩
      rw [show b.tail + (j + b.capacity - b.tail) = j + b.capacity by omega, Nat.add_mod_right,
        Nat.mod_eq_of_lt (by omega)]
    · exact ⟨j - b.tail, by omega, by
        rw [Nat.add_sub_cancel' hj.1, Nat.mod_eq_of_lt hj.2]⟩

theorem Ring.backIndex_eq (h : b.Ring bs fs) (hpos : 0 < bs.length) :
    b.backIndex = (b.tail + (bs.length - 1)) % b.capacity := by
  have hstart : b.tail < b.capacity := h.holds.start
  have htotal := h.total
  unfold backIndex
  rcases h.head_cases hpos with ⟨hlt, heq, hcap⟩ | ⟨hle, heq⟩
  · rw [if_neg (by omega), Nat.mod_eq_of_lt (by omega)]
    omega
  · split
    next hzero => rw [Nat.mod_eq_of_lt (by omega)]; omega
    next => rw [Nat.mod_eq_sub_mod (by omega), Nat.mod_eq_of_lt (by omega)]; omega

theorem scan_some {seq : Int} {first last j : Nat} (hf : b.scan seq first last = some j) :
    first ≤ j ∧ j < last ∧ (b.slot j).sequence = seq := by
  have hseq := List.find?_some hf
  have hmem := List.mem_range'_1.mp (List.mem_of_find?_eq_some hf)
  exact ⟨hmem.1, by omega, by simpa using hseq⟩

theorem doFind_some {seq : Int} {first last j : Nat} (hle : first ≤ last)
    (hf : b.doFind seq first last = some j) :
    first ≤ j ∧ j < last ∧ (b.slot j).sequence = seq := by
  obtain ⟨h1, h2⟩ := @lowerBound_mem (fun i => decide ((b.slot i).sequence < seq))
    (last - first) first (last - first) (Nat.le_refl _)
  unfold doFind at hf
  simp only at hf
  split at hf
  next hc =>
    cases hf
    exact ⟨h1, by omega, hc.2⟩
  next => cases hf

/-- **What `find` returns**: a block with the number, in the ring or behind the
vector. -/
theorem Ring.find_some (h : b.Ring bs fs) {seq : Int} {j : Nat} (hf : b.find seq = some j) :
    (b.slot j).sequence = seq ∧ ((∃ i < bs.length, j = (b.tail + i) % b.capacity) ∨
      (b.capacity ≤ j ∧ searchThreshold ≤ b.size ∧ b.head ≤ b.tail ∧
        j < b.capacity + b.spare.length)) := by
  have hstart : b.tail < b.capacity := h.holds.start
  unfold find at hf
  split at hf
  next => cases hf
  next hne =>
    have hpos : 0 < bs.length := by
      rw [← h.size]
      simpa [empty, Nat.pos_iff_ne_zero] using hne
    have hocc := @Ring.occupied b bs fs h hpos
    split at hf
    next hback =>
      cases hf
      exact ⟨hback, Or.inl ⟨bs.length - 1, by omega, h.backIndex_eq hpos⟩⟩
    next =>
      split at hf
      next =>
        split at hf
        next hlt =>
          obtain ⟨h1, h2, h3⟩ := scan_some hf
          exact ⟨h3, Or.inl (hocc (by rw [if_pos hlt]; exact ⟨h1, h2⟩))⟩
        next hge =>
          rcases Option.or_eq_some_iff.mp hf with hf | ⟨-, hf⟩
          · obtain ⟨h1, h2, h3⟩ := scan_some hf
            exact ⟨h3, Or.inl (hocc (by rw [if_neg hge]; exact Or.inl h2))⟩
          · obtain ⟨h1, h2, h3⟩ := scan_some hf
            exact ⟨h3, Or.inl (hocc (by rw [if_neg hge]; exact Or.inr ⟨h1, h2⟩))⟩
      next hlarge =>
        split at hf
        next hlt =>
          obtain ⟨h1, h2, h3⟩ := doFind_some (Nat.le_of_lt hlt) hf
          exact ⟨h3, Or.inl (hocc (by rw [if_pos hlt]; exact ⟨h1, h2⟩))⟩
        next hge =>
          rcases Option.or_eq_some_iff.mp hf with hf | ⟨-, hf⟩
          · obtain ⟨h1, h2, h3⟩ := doFind_some (Nat.zero_le _) hf
            exact ⟨h3, Or.inl (hocc (by rw [if_neg hge]; exact Or.inl h2))⟩
          · obtain ⟨h1, h2, h3⟩ := doFind_some (by omega) hf
            refine ⟨h3, ?_⟩
            by_cases hin : j < b.capacity
            · exact Or.inl (hocc (by rw [if_neg hge]; exact Or.inr ⟨h1, hin⟩))
            · exact Or.inr ⟨by omega, by omega, by omega, h2⟩

/-! ## Iteration -/

/-- From the `k`-th block on, the iterator visits the rest of the queue. -/
theorem Ring.walk_eq (h : b.Ring bs fs) {fuel k : Nat} (hk : k < bs.length)
    (hfuel : bs.length - k ≤ fuel) :
    b.walk fuel ((b.tail + k) % b.capacity) =
      (List.range' k (bs.length - k)).map fun i => (b.tail + i) % b.capacity := by
  have htotal := h.total
  have hcap := h.capacity_pos
  induction fuel generalizing k with
  | zero => omega
  | succ fuel ih =>
    have hnext : (if (b.tail + k) % b.capacity + 1 = b.capacity then 0
        else (b.tail + k) % b.capacity + 1) = (b.tail + (k + 1)) % b.capacity := by
      rw [next_eq (Nat.mod_lt _ hcap), Nat.mod_add_mod, Nat.add_assoc]
    rw [show bs.length - k = (bs.length - (k + 1)) + 1 by omega, List.range'_succ, List.map_cons,
      walk]
    simp only [hnext]
    refine congrArg _ ?_
    by_cases hlast : k + 1 = bs.length
    · rw [if_pos (by rw [h.head, h.size, hlast]), hlast, Nat.sub_self]
      rfl
    · have hne : (b.tail + (k + 1)) % b.capacity ≠ b.head := by
        rw [h.head, h.size]
        by_cases hfull : bs.length = b.capacity
        · rw [hfull, Nat.add_mod_right, ← Nat.add_zero b.tail, Nat.add_assoc, Nat.zero_add]
          exact slot_ne (by omega) hcap (by omega)
        · exact slot_ne (by omega) (by omega) (by omega)
      rw [if_neg hne]
      exact ih (by omega) (by omega)

theorem Ring.indices_eq (h : b.Ring bs fs) :
    b.indices = (List.range bs.length).map fun i => (b.tail + i) % b.capacity := by
  unfold indices
  split
  next he =>
    have : bs.length = 0 := by
      rw [← h.size]
      simpa [empty] using he
    rw [this]
    rfl
  next hne =>
    have hpos : 0 < bs.length := by
      rw [← h.size]
      simpa [empty, Nat.pos_iff_ne_zero] using hne
    have htotal := h.total
    have hstart : b.tail < b.capacity := h.holds.start
    have hwalk := @Ring.walk_eq b bs fs h b.capacity 0 hpos (by omega)
    rwa [Nat.add_zero, Nat.mod_eq_of_lt hstart, Nat.sub_zero, ← List.range_eq_range'] at hwalk

/-- No slot is visited twice. -/
theorem Ring.nodup_indices (h : b.Ring bs fs) : b.indices.Nodup := by
  have htotal := h.total
  rw [h.indices_eq]
  refine List.pairwise_map.mpr (List.nodup_range.imp_of_mem fun hi hj hne => ?_)
  rw [List.mem_range] at hi hj
  exact slot_ne (by omega) (by omega) hne

/-- An iteration visits the blocks of the queue in order. -/
theorem Ring.iterate_eq (h : b.Ring bs fs) : b.indices.map b.slot = bs := by
  rw [h.indices_eq, List.map_map]
  have := h.blocks_eq
  unfold blocks at this
  rw [h.size] at this
  exact this

end

end JitterBuffer

end Aoo.Stream
