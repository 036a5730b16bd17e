import Aoo.Lib.Search
import Aoo.Stream.Packet
import Mathlib.Data.Rat.Init

/-!
# The frames of a block

`data_frame_storage` and `received_block`. A sink collects the frames of a block
in an array of pointers if there are few of them; otherwise in a linked list that
is sorted by frame index, with a bitset for the first 256 frames. Both should do
the same, a map from frame indices to frames: `DataFrameStorage.Stores` is that
reading, and each operation has one lemma about it.

The indices come from the network. An index outside the block would leave the
array; the model then reads an empty slot and writes nothing, and records the
call elsewhere (`Stream.Sink`).
-/

namespace Aoo.Stream

open Lib

/-- Number of bits of the bitset. -/
def frameLimit : Nat := 256

/-- `small_frame_limit`, with pointers of 8 bytes. -/
def smallFrameLimit : Nat := 6

/-- `data_frame_storage`. The frames of the list carry their index, which is an
`int16_t`. -/
structure DataFrameStorage where
  size : Int := 0
  vec : List (Option (List UInt8)) := List.replicate smallFrameLimit none
  list : List (Int × List UInt8) := []
  bitset : Nat := 0
  deriving DecidableEq, Repr

namespace DataFrameStorage

/-- `size_ > small_frame_limit`. The comparison is unsigned. -/
def isLarge (size : Int) : Bool := decide (size < 0) || decide (size > smallFrameLimit)

/-- `data_frame_storage::init` -/
def init (s : DataFrameStorage) (size : Int) : DataFrameStorage :=
  if isLarge size then { s with size := size, list := [], bitset := 0 }
  else { s with size := size, vec := List.replicate smallFrameLimit none }

/-- `data_frame_storage::clear` -/
def clear (s : DataFrameStorage) : DataFrameStorage :=
  if isLarge s.size then { s with size := 0, list := [] } else { s with size := 0 }

/-- The loop of `find_frame`. -/
def findFrame (index : Int) : List (Int × List UInt8) → Bool
  | [] => false
  | (i, _) :: frames => if i = index then true else if i > index then false else findFrame index frames

/-- `data_frame_storage::has_frame` -/
def hasFrame (s : DataFrameStorage) (index : Int) : Bool :=
  if isLarge s.size then
    if 0 ≤ index ∧ index < frameLimit then s.bitset.testBit index.toNat
    else findFrame index s.list
  else (s.vec.getD index.toNat none).isSome

/-- The loop behind the first frame of the list. -/
def insertFrame (index : Int) (frame : List UInt8) :
    List (Int × List UInt8) → List (Int × List UInt8)
  | [] => [(toInt16 index, frame)]
  | f :: frames =>
    if index > f.1 then f :: insertFrame index frame frames
    else (toInt16 index, frame) :: f :: frames

/-- The list of `add_frame`: append behind the last frame (the typical pattern),
or else prepend or insert. -/
def linkFrame (index : Int) (frame : List UInt8) (frames : List (Int × List UInt8)) :
    List (Int × List UInt8) :=
  if frames.getLast?.any fun f => index > f.1 then frames ++ [(toInt16 index, frame)]
  else
    match frames with
    | [] => [(toInt16 index, frame)]
    | f :: frames =>
      if index < f.1 then (toInt16 index, frame) :: f :: frames
      else f :: insertFrame index frame frames

/-- `data_frame_storage::add_frame` -/
def addFrame (s : DataFrameStorage) (index : Int) (frame : List UInt8) : DataFrameStorage :=
  if isLarge s.size then
    { s with
      list := linkFrame index frame s.list
      bitset := if 0 ≤ index ∧ index < frameLimit then s.bitset ||| 1 <<< index.toNat
        else s.bitset }
  else { s with vec := if 0 ≤ index then s.vec.set index.toNat (some frame) else s.vec }

/-- The frames that `copy_frames` copies one behind the other; `none` is a null
pointer. -/
def copyFrames (s : DataFrameStorage) : List (Option (List UInt8)) :=
  if isLarge s.size then s.list.map fun f => some f.2
  else (List.range s.size.toNat).map fun i => s.vec.getD i none

/-! ## The map from indices to frames -/

/-- The entries of a map in ascending order. -/
def entries (n : Nat) (f : Nat → Option (List UInt8)) : List (Int × List UInt8) :=
  (List.range n).filterMap fun i : Nat => (f i).map fun frame => ((i : Int), frame)

/-- The storage has room for `n` frames and stores those that `f` gives. -/
structure Stores (s : DataFrameStorage) (n : Nat) (f : Nat → Option (List UInt8)) : Prop where
  size : s.size = n
  bound : n ≤ 32767
  vec : n ≤ smallFrameLimit → s.vec.length = smallFrameLimit ∧ ∀ i < n, s.vec.getD i none = f i
  list : smallFrameLimit < n → s.list = entries n f ∧
    ∀ i < n, i < frameLimit → s.bitset.testBit i = (f i).isSome

theorem isLarge_eq (n : Nat) : isLarge n = decide (smallFrameLimit < n) := by
  have : ¬ (n : Int) < 0 := by omega
  simp only [isLarge, this, decide_false, Bool.false_or]
  exact decide_eq_decide.mpr (by omega)

theorem mem_entries {n : Nat} {f : Nat → Option (List UInt8)} {e : Int × List UInt8} :
    e ∈ entries n f ↔ ∃ i < n, (i : Int) = e.1 ∧ f i = some e.2 := by
  unfold entries
  rw [List.mem_filterMap]
  constructor
  · rintro ⟨i, hi, he⟩
    rw [List.mem_range] at hi
    obtain ⟨frame, hf, rfl⟩ := Option.map_eq_some_iff.mp he
    exact ⟨i, hi, rfl, hf⟩
  · rintro ⟨i, hi, heq, hf⟩
    refine ⟨i, List.mem_range.mpr hi, ?_⟩
    rw [hf, Option.map_some, heq]

theorem entries_ascending (n : Nat) (f : Nat → Option (List UInt8)) :
    (entries n f).Pairwise fun a b => a.1 < b.1 := by
  unfold entries
  refine List.pairwise_filterMap.mpr (List.pairwise_lt_range.imp fun {i j} hij a ha b hb => ?_)
  obtain ⟨_, -, rfl⟩ := Option.map_eq_some_iff.mp ha
  obtain ⟨_, -, rfl⟩ := Option.map_eq_some_iff.mp hb
  show (i : Int) < (j : Int)
  omega

/-! ## Operations -/

theorem stores_init (s : DataFrameStorage) {n : Nat} (hn : n ≤ 32767) :
    (s.init n).Stores n fun _ => none := by
  unfold init
  rw [isLarge_eq]
  split
  next hl =>
    rw [decide_eq_true_eq] at hl
    refine ⟨rfl, hn, fun hs => absurd hs (by omega), fun _ => ⟨?_, fun i _ _ => ?_⟩⟩
    · simp [entries]
    · simp
  next hs =>
    rw [decide_eq_true_eq] at hs
    refine ⟨rfl, hn, fun _ => ⟨List.length_replicate .., fun i hi => ?_⟩,
      fun hl => absurd hl hs⟩
    rw [List.getD_eq_getElem?_getD, List.getElem?_replicate]
    split <;> rfl

/-- In an ascending list the search finds exactly the indices that are there. -/
theorem findFrame_eq {frames : List (Int × List UInt8)}
    (h : frames.Pairwise fun a b => a.1 < b.1) (index : Int) :
    findFrame index frames = decide (∃ f ∈ frames, f.1 = index) := by
  induction frames with
  | nil => simp [findFrame]
  | cons f frames ih =>
    obtain ⟨hf, htail⟩ := List.pairwise_cons.mp h
    rw [findFrame]
    split
    next heq => exact (decide_eq_true ⟨f, List.mem_cons_self .., heq⟩).symm
    next hne =>
      split
      next hgt =>
        refine (decide_eq_false ?_).symm
        rintro ⟨g, hg, rfl⟩
        rcases List.mem_cons.mp hg with rfl | hg
        · exact hne rfl
        · have := hf g hg
          omega
      next =>
        rw [ih htail]
        refine decide_eq_decide.mpr ⟨fun ⟨g, hg, heq⟩ => ⟨g, List.mem_cons_of_mem _ hg, heq⟩, ?_⟩
        rintro ⟨g, hg, heq⟩
        rcases List.mem_cons.mp hg with rfl | hg
        · exact absurd heq hne
        · exact ⟨g, hg, heq⟩

/-- **`has_frame` is membership.** -/
theorem Stores.hasFrame_eq {s : DataFrameStorage} {n : Nat} {f : Nat → Option (List UInt8)}
    (h : s.Stores n f) {i : Nat} (hi : i < n) : s.hasFrame i = (f i).isSome := by
  unfold hasFrame
  rw [h.size, isLarge_eq]
  split
  next hl =>
    rw [decide_eq_true_eq] at hl
    obtain ⟨hlist, hbits⟩ := h.list hl
    split
    next hbit =>
      rw [Int.toNat_natCast]
      exact hbits i hi (by omega)
    next =>
      rw [hlist, findFrame_eq (entries_ascending n f)]
      cases hf : f i with
      | none =>
        refine decide_eq_false ?_
        rintro ⟨e, he, heq⟩
        obtain ⟨j, -, hj, hfj⟩ := mem_entries.mp he
        rw [show j = i by omega, hf] at hfj
        cases hfj
      | some frame =>
        exact decide_eq_true ⟨((i : Int), frame), mem_entries.mpr ⟨i, hi, rfl, hf⟩, rfl⟩
  next hs =>
    rw [decide_eq_true_eq] at hs
    rw [Int.toNat_natCast, (h.vec (by omega)).2 i hi]

theorem insertFrame_eq {index : Int} (hindex : 0 ≤ index ∧ index ≤ 32767) (frame : List UInt8)
    {frames : List (Int × List UInt8)} (h : frames.Pairwise fun a b => a.1 < b.1)
    (hnew : ∀ f ∈ frames, f.1 ≠ index) :
    (insertFrame index frame frames).Pairwise (fun a b => a.1 < b.1) ∧
      ∀ e, e ∈ insertFrame index frame frames ↔ e = (index, frame) ∨ e ∈ frames := by
  have h16 : toInt16 index = index := toInt16_of_range (by omega) (by omega)
  induction frames with
  | nil => simp [insertFrame, h16]
  | cons f frames ih =>
    obtain ⟨hf, htail⟩ := List.pairwise_cons.mp h
    obtain ⟨hasc, hmem⟩ := ih htail fun g hg => hnew g (List.mem_cons_of_mem _ hg)
    have hne := hnew f (List.mem_cons_self ..)
    rw [insertFrame]
    split
    next hgt =>
      refine ⟨List.pairwise_cons.mpr ⟨fun g hg => ?_, hasc⟩, fun e => ?_⟩
      · rcases (hmem g).mp hg with rfl | hg
        · exact hgt
        · exact hf g hg
      · rw [List.mem_cons, hmem, List.mem_cons]
        exact or_left_comm
    next hle =>
      rw [h16]
      refine ⟨List.pairwise_cons.mpr ⟨fun g hg => ?_, h⟩, fun e => List.mem_cons⟩
      show index < g.1
      rcases List.mem_cons.mp hg with rfl | hg
      · omega
      · have := hf g hg
        omega

/-- Linking a new frame keeps the order, wherever it goes. -/
theorem linkFrame_eq {index : Int} (hindex : 0 ≤ index ∧ index ≤ 32767) (frame : List UInt8)
    {frames : List (Int × List UInt8)} (h : frames.Pairwise fun a b => a.1 < b.1)
    (hnew : ∀ f ∈ frames, f.1 ≠ index) :
    (linkFrame index frame frames).Pairwise (fun a b => a.1 < b.1) ∧
      ∀ e, e ∈ linkFrame index frame frames ↔ e = (index, frame) ∨ e ∈ frames := by
  have h16 : toInt16 index = index := toInt16_of_range (by omega) (by omega)
  unfold linkFrame
  split
  next hlast =>
    -- the last index is the largest
    obtain ⟨l, hl, hgt⟩ := (Option.any_eq_true _ _).mp hlast
    rw [h16]
    refine ⟨List.pairwise_append.mpr ⟨h, List.pairwise_singleton .., fun a ha b hb => ?_⟩,
      fun e => ?_⟩
    · rw [List.mem_singleton] at hb
      subst hb
      obtain ⟨pre, rfl⟩ := List.getLast?_eq_some_iff.mp hl
      have hlt : l.1 < index := by simpa using hgt
      rcases List.mem_append.mp ha with ha | ha
      · have := (List.pairwise_append.mp h).2.2 a ha l (List.mem_singleton_self _)
        show a.1 < index
        omega
      · rw [List.mem_singleton.mp ha]
        exact hlt
    · rw [List.mem_append, List.mem_singleton]
      exact or_comm
  next =>
    cases frames with
    | nil => simp [h16]
    | cons f frames =>
      obtain ⟨hf, htail⟩ := List.pairwise_cons.mp h
      have hne := hnew f (List.mem_cons_self ..)
      simp only
      split
      next hlt =>
        rw [h16]
        refine ⟨List.pairwise_cons.mpr ⟨fun g hg => ?_, h⟩, fun e => List.mem_cons⟩
        show index < g.1
        rcases List.mem_cons.mp hg with rfl | hg
        · exact hlt
        · have := hf g hg
          omega
      next hge =>
        obtain ⟨hasc, hmem⟩ := insertFrame_eq hindex frame htail
          fun g hg => hnew g (List.mem_cons_of_mem _ hg)
        refine ⟨List.pairwise_cons.mpr ⟨fun g hg => ?_, hasc⟩, fun e => ?_⟩
        · rcases (hmem g).mp hg with rfl | hg
          · show f.1 < index
            omega
          · exact hf g hg
        · rw [List.mem_cons, hmem, List.mem_cons]
          exact or_left_comm

/-- The list and the bitset agree on a map with one more frame. -/
theorem Stores.addFrame_large {s : DataFrameStorage} {n : Nat} {f : Nat → Option (List UInt8)}
    (h : s.Stores n f) (hl : smallFrameLimit < n) {i : Nat} (hi : i < n) (hnone : f i = none)
    (frame : List UInt8) :
    linkFrame i frame s.list = entries n (Function.update f i (some frame)) := by
  have hn := h.bound
  rw [(h.list hl).1]
  obtain ⟨hasc, hmem⟩ := @linkFrame_eq (i : Int) ⟨by omega, by omega⟩ frame _
    (entries_ascending n f) fun e he heq => by
      obtain ⟨j, -, hj, hfj⟩ := mem_entries.mp he
      rw [show j = i by omega, hnone] at hfj
      cases hfj
  refine eq_of_ascending (fun a b hab => by omega) hasc (entries_ascending _ _) fun e => ?_
  rw [hmem, mem_entries, mem_entries]
  constructor
  · rintro (rfl | ⟨j, hj, heq, hfj⟩)
    · exact ⟨i, hi, rfl, Function.update_self ..⟩
    · refine ⟨j, hj, heq, ?_⟩
      rwa [Function.update_of_ne]
      intro hc
      rw [hc, hnone] at hfj
      cases hfj
  · rintro ⟨j, hj, heq, hfj⟩
    by_cases hji : j = i
    · rw [hji, Function.update_self, Option.some.injEq] at hfj
      exact Or.inl (Prod.ext (by rw [← heq, hji]) hfj.symm)
    · rw [Function.update_of_ne hji] at hfj
      exact Or.inr ⟨j, hj, heq, hfj⟩

/-- **`add_frame` is an update of the map.** -/
theorem Stores.addFrame {s : DataFrameStorage} {n : Nat} {f : Nat → Option (List UInt8)}
    (h : s.Stores n f) {i : Nat} (hi : i < n) (hnone : f i = none) (frame : List UInt8) :
    (s.addFrame i frame).Stores n (Function.update f i (some frame)) := by
  unfold DataFrameStorage.addFrame
  rw [h.size, isLarge_eq]
  split
  next hl =>
    rw [decide_eq_true_eq] at hl
    refine ⟨rfl, h.bound, fun hs => absurd hs (by omega), fun _ =>
      ⟨h.addFrame_large hl hi hnone frame, fun j hj hbit => ?_⟩⟩
    have hold := (h.list hl).2 j hj hbit
    by_cases hji : j = i
    · subst hji
      rw [Function.update_self, if_pos ⟨by omega, by omega⟩, Nat.testBit_or]
      simp
    · rw [Function.update_of_ne hji]
      split
      next =>
        rw [Nat.testBit_or, hold, Nat.one_shiftLeft, Int.toNat_natCast, Nat.testBit_two_pow,
          decide_eq_false (fun hc => hji hc.symm), Bool.or_false]
      next => exact hold
  next hs =>
    rw [decide_eq_true_eq] at hs
    obtain ⟨hlen, hvec⟩ := h.vec (by omega)
    refine ⟨rfl, h.bound, fun _ => ⟨?_, fun j hj => ?_⟩, fun hl => absurd hl hs⟩
    · rw [if_pos (by omega), List.length_set]
      exact hlen
    · rw [if_pos (by omega), Int.toNat_natCast, List.getD_eq_getElem?_getD]
      by_cases hji : j = i
      · subst hji
        rw [List.getElem?_set_self (by omega), Function.update_self]
        rfl
      · rw [List.getElem?_set_ne (fun hc => hji hc.symm), Function.update_of_ne hji,
          ← List.getD_eq_getElem?_getD]
        exact hvec j hj

/-- **`copy_frames` copies the frames in the order of their indices** once they
are all there. -/
theorem Stores.copyFrames_eq {s : DataFrameStorage} {n : Nat} {f : Nat → Option (List UInt8)}
    (h : s.Stores n f) (hall : ∀ i < n, (f i).isSome) : s.copyFrames = (List.range n).map f := by
  unfold copyFrames
  rw [h.size, isLarge_eq]
  split
  next hl =>
    rw [decide_eq_true_eq] at hl
    rw [(h.list hl).1, entries, List.map_filterMap, ← List.filterMap_eq_map']
    refine List.filterMap_congr fun i hi => ?_
    obtain ⟨frame, hf⟩ := Option.isSome_iff_exists.mp (hall i (List.mem_range.mp hi))
    simp [hf]
  next hs =>
    rw [decide_eq_true_eq] at hs
    rw [Int.toNat_natCast]
    exact List.map_congr_left fun i hi => (h.vec (by omega)).2 i (List.mem_range.mp hi)

end DataFrameStorage

/-! ## Blocks -/

/-- `received_block`. Times are rational numbers. -/
structure ReceivedBlock where
  sequence : Int := -1
  totalSize : Int := 0
  messageSize : Int := 0
  flags : Nat := 0
  tt : Nat := 0
  absoluteSamplePosition : UInt64 := 0
  sourceTimestamp : UInt64 := 0
  blockFrames : UInt16 := 0
  samplerate : Nat := 0
  channel : Int := 0
  receivedFrames : Int := 0
  numTries : Nat := 0
  resent : Bool := false
  timestamp : ℚ := 0
  frames : DataFrameStorage := {}
  deriving DecidableEq, Repr

namespace ReceivedBlock

/-- `received_block::init` for a placeholder. Flags and time tag stay. -/
def initPlaceholder (b : ReceivedBlock) (seq : Int) : ReceivedBlock :=
  { b with
    sequence := seq
    totalSize := 0
    messageSize := 0
    samplerate := 0
    absoluteSamplePosition := 0
    sourceTimestamp := 0
    blockFrames := 0
    channel := 0
    receivedFrames := -1
    numTries := 0
    resent := false
    timestamp := 0 }

/-- `received_block::init` for a packet. The number of tries and the time of the last one
stay: the old sequence number is read off the packet. -/
def init (b : ReceivedBlock) (d : DataPacket) : ReceivedBlock :=
  { b with
    sequence := d.sequence
    totalSize := d.totalSize
    messageSize := d.msgSize
    flags := d.flags
    tt := d.tt
    samplerate := d.samplerate
    absoluteSamplePosition := d.absoluteSamplePosition
    sourceTimestamp := d.sourceTimestamp
    blockFrames := d.blockFrames
    channel := toInt16 d.channel
    receivedFrames := 0
    resent := false
    frames := b.frames.init d.numFrames }

def clear (b : ReceivedBlock) : ReceivedBlock :=
  { b with frames := b.frames.clear, receivedFrames := 0 }

def numFrames (b : ReceivedBlock) : Int := b.frames.size

def hasFrame (b : ReceivedBlock) (index : Int) : Bool := b.frames.hasFrame index

def addFrame (b : ReceivedBlock) (index : Int) (frame : List UInt8) : ReceivedBlock :=
  { b with
    frames := b.frames.addFrame index frame
    receivedFrames := toInt16 (b.receivedFrames + 1) }

@[simp] theorem addFrame_sequence (b : ReceivedBlock) (index : Int) (frame : List UInt8) :
    (b.addFrame index frame).sequence = b.sequence := by
  cases b
  rfl

def complete (b : ReceivedBlock) : Bool := decide (b.receivedFrames = b.numFrames)

def placeholder (b : ReceivedBlock) : Bool := decide (b.receivedFrames < 0)

def isEmpty (b : ReceivedBlock) : Bool := decide (b.numFrames = 0)

/-- `received_block::update`, when the interval has passed. -/
def update (b : ReceivedBlock) (time : ℚ) : ReceivedBlock :=
  { b with timestamp := time, numTries := (b.numTries + 1) % 65536 }

end ReceivedBlock

end Aoo.Stream
