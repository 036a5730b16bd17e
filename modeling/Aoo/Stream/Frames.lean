import Aoo.Lib.LinkedList
import Aoo.Stream.FrameStorage
import Mathlib.Data.List.Induction

/-!
# The frames of a block in memory

`data_frame_storage` with its pointers: a union of an array and of a linked list with a
bitset, where the frames themselves carry their index and the next frame. Linking a frame is
`linkFrame` of the list of frames (`link_spans`), so that `DataFrameStorage` is what
the pointers stand for.

The index of a frame is an `int16_t`, and a block can have more frames than that.
**Main result** (`frames_iff`): in whatever order frames are added, the storage is faithful
exactly if their indices fit.
-/

namespace Aoo.Stream

open Lib

/-- A frame index has 16 bits. -/
theorem toInt16_range (v : Int) : -32768 ≤ toInt16 v ∧ toInt16 v ≤ 32767 := by
  refine ⟨?_, toInt16_le v⟩
  unfold toInt16 signed
  have := @Int.le_bmod (unsigned 65536 v : Nat) 65536 (by decide)
  omega

/-- `data_frame` -/
structure DataFrame where
  data : List UInt8
  frameIndex : Int := 0
  next : Option Nat := none
  frameIndex_range : -32768 ≤ frameIndex ∧ frameIndex ≤ 32767 := by decide

/-- The frames, by their address. -/
abbrev FrameHeap := Nat → DataFrame

namespace FrameHeap

/-- `header.frame_index` -/
def setIndex (h : FrameHeap) (p : Nat) (index : Int) : FrameHeap :=
  Function.update h p
    { h p with frameIndex := toInt16 index, frameIndex_range := toInt16_range index }

/-- `header.next` -/
def setNext (h : FrameHeap) (p : Nat) (q : Option Nat) : FrameHeap :=
  Function.update h p { h p with next := q }

def next (h : FrameHeap) (p : Nat) : Option Nat := (h p).next

/-- A frame as an element of a list. -/
def view (h : FrameHeap) (p : Nat) : Int × List UInt8 := ((h p).frameIndex, (h p).data)

/-- One link is changed. -/
theorem next_setNext (h : FrameHeap) (p : Nat) (q : Option Nat) :
    (h.setNext p q).next = Function.update h.next p q := by
  funext r
  unfold next setNext
  by_cases hr : r = p
  · subst hr
    rw [Function.update_self, Function.update_self]
  · rw [Function.update_of_ne hr, Function.update_of_ne hr]

@[simp] theorem view_setNext (h : FrameHeap) (p : Nat) (q : Option Nat) :
    (h.setNext p q).view = h.view := by
  funext r
  unfold view setNext
  by_cases hr : r = p
  · subst hr
    rw [Function.update_self]
  · rw [Function.update_of_ne hr]

/-- An index changes no link. -/
theorem next_setIndex (h : FrameHeap) (p : Nat) (index : Int) :
    (h.setIndex p index).next = h.next := by
  funext r
  unfold next setIndex
  by_cases hr : r = p
  · subst hr
    rw [Function.update_self]
  · rw [Function.update_of_ne hr]

/-- An index is cut to 16 bits. -/
theorem frameIndex_setIndex_self (h : FrameHeap) (p : Nat) (index : Int) :
    (h.setIndex p index p).frameIndex = toInt16 index := by
  rw [setIndex, Function.update_self]

/-- Other frames keep their index. -/
theorem setIndex_of_ne (h : FrameHeap) {p q : Nat} (hq : q ≠ p) (index : Int) :
    h.setIndex p index q = h q := by
  rw [setIndex, Function.update_of_ne hq]

@[simp] theorem data_setIndex (h : FrameHeap) (p : Nat) (index : Int) (q : Nat) :
    (h.setIndex p index q).data = (h q).data := by
  by_cases hq : q = p
  · rw [hq, setIndex, Function.update_self]
  · rw [h.setIndex_of_ne hq]

end FrameHeap

/-- `data_union` -/
inductive FrameUnion
  | vec (frames : List (Option Nat))
  | list (head tail : Option Nat) (bitset : Nat)

/-- `data_frame_storage`. As long as `size` stays, the functions use the same side of the
union. -/
structure FrameStorage where
  size : Int
  data : FrameUnion

namespace FrameStorage

/-- `data_frame_storage::init` -/
def init (size : Int) : FrameStorage where
  size := size
  data :=
    if DataFrameStorage.isLarge size then .list none none 0
    else .vec (List.replicate smallFrameLimit none)

/-- The loop of `data_frame_storage::find_frame`. -/
def findFrame (h : FrameHeap) (index : Int) : (fuel : Nat) → Option Nat → Bool
  | 0, _ => false
  | _ + 1, none => false
  | fuel + 1, some p =>
    if (h p).frameIndex = index then true
    else if (h p).frameIndex > index then false
    else findFrame h index fuel (h p).next

/-- `data_frame_storage::has_frame` -/
def hasFrame (h : FrameHeap) (s : FrameStorage) (index : Int) : Bool :=
  match s.data with
  | .list head _ bitset =>
    if 0 ≤ index ∧ index < frameLimit then bitset.testBit index.toNat
    else findFrame h index s.size.toNat head
  | .vec frames => (frames.getD index.toNat none).isSome

/-- b) prepend, or c) insert -/
def insert (h : FrameHeap) (head : Option Nat) (index : Int) (p fuel : Nat) :
    FrameHeap × Option Nat :=
  match head with
  | none => (h.setNext p none, some p)
  | some first =>
    if index < (h first).frameIndex then (h.setNext p head, some p)
    else
      let prev := walk h.next (fun q => decide (index > (h q).frameIndex)) fuel first
      ((h.setNext p (h prev).next).setNext prev (some p), head)

/-- The frame becomes part of the list: a) behind the tail (the typical pattern), or else
where it belongs. -/
def link (h : FrameHeap) (head tail : Option Nat) (index : Int) (p fuel : Nat) :
    FrameHeap × Option Nat × Option Nat :=
  match tail.filter fun t => decide (index > (h t).frameIndex) with
  | some t => ((h.setNext p none).setNext t (some p), head, some p)
  | none =>
    let (h, head) := insert h head index p fuel
    (h, head, if (h p).next = none then some p else tail)

/-- `data_frame_storage::add_frame` -/
def addFrame (h : FrameHeap) (s : FrameStorage) (index : Int) (p : Nat) :
    FrameHeap × FrameStorage :=
  let h := h.setIndex p index
  match s.data with
  | .list head tail bitset =>
    let (h, head, tail) := link h head tail index p s.size.toNat
    let bitset := if 0 ≤ index ∧ index < frameLimit then bitset ||| 1 <<< index.toNat else bitset
    (h, { s with data := .list head tail bitset })
  | .vec frames =>
    (h, { s with data := .vec (if 0 ≤ index then frames.set index.toNat (some p) else frames) })

/-- `data_frame_storage::copy_frames`: what is written to the buffer. -/
def copyFrames (h : FrameHeap) (s : FrameStorage) : List UInt8 :=
  match s.data with
  | .list head _ _ => (nodes h.next s.size.toNat head).flatMap fun p => (h p).data
  | .vec frames =>
    (List.range s.size.toNat).flatMap fun i =>
      match frames.getD i none with
      | some p => (h p).data
      | none => []

/-! ## The list -/

/-- The list goes through the frames at `ps`, and `tail` is the last of them. -/
structure Spans (h : FrameHeap) (head tail : Option Nat) (ps : List Nat) : Prop where
  linked : Linked h.next head ps
  tail : tail = ps.getLast?
  nodup : ps.Nodup

section

variable {h : FrameHeap} {head tail : Option Nat} {ps rest : List Nat} {t first : Nat}

/-- The place of a frame in the list. -/
theorem insertFrame_map (h : FrameHeap) {index : Int} {p : Nat}
    (hindex : (h p).frameIndex = toInt16 index) :
    ∀ qs : List Nat, DataFrameStorage.insertFrame index (h p).data (qs.map h.view) =
      (insertBehind (fun q => decide (index > (h q).frameIndex)) p qs).map h.view := by
  have hp : h.view p = (toInt16 index, (h p).data) := by
    rw [FrameHeap.view, hindex]
  intro qs
  induction qs with
  | nil =>
    rw [List.map_nil, DataFrameStorage.insertFrame, insertBehind, List.map_singleton, hp]
  | cons q qs ih =>
    rw [List.map_cons, DataFrameStorage.insertFrame, insertBehind]
    by_cases hq : index > (h q).frameIndex
    · rw [if_pos (show index > (h.view q).1 from hq), if_pos (decide_eq_true hq), ih,
        List.map_cons]
    · rw [if_neg (show ¬ index > (h.view q).1 from hq), if_neg (by rwa [decide_eq_true_iff]),
        List.map_cons, List.map_cons, hp]

/-- What it takes for a frame to be linked as in the list of frames. -/
structure Links (h : FrameHeap) (ps : List Nat) (index : Int) (p : Nat)
    (r : FrameHeap × Option Nat × Option Nat) (ps' : List Nat) : Prop where
  spans : Spans r.1 r.2.1 r.2.2 ps'
  perm : ps'.Perm (p :: ps)
  view : r.1.view = h.view
  list : ps'.map h.view = DataFrameStorage.linkFrame index (h p).data (ps.map h.view)

/-- The tail is the last frame, so it is enough to look at that. -/
theorem Spans.filter_tail (hs : Spans h head tail ps) (index : Int) :
    ((ps.map h.view).getLast?.any fun f => decide (index > f.1)) =
      (tail.filter fun t => decide (index > (h t).frameIndex)).isSome := by
  rw [hs.tail, List.getLast?_map]
  cases ps.getLast? with
  | none => rfl
  | some t =>
    by_cases ht : index > (h t).frameIndex
    · simp [FrameHeap.view, ht]
    · simp [FrameHeap.view, ht]

/-- A frame that is not the last goes in before the first larger one. -/
theorem linkFrame_cons {index : Int} {frame : List UInt8} {f : Int × List UInt8}
    {frames : List (Int × List UInt8)}
    (hlast : ((f :: frames).getLast?.any fun g => decide (index > g.1)) = false) :
    DataFrameStorage.linkFrame index frame (f :: frames) =
      if index < f.1 then (toInt16 index, frame) :: f :: frames
      else f :: DataFrameStorage.insertFrame index frame frames := by
  unfold DataFrameStorage.linkFrame
  rw [if_neg (by rw [hlast]; exact nofun)]

theorem next_self (h : FrameHeap) (p : Nat) (q : Option Nat) : (h.setNext p q p).next = q := by
  show (h.setNext p q).next p = q
  rw [FrameHeap.next_setNext, Function.update_self]

/-- a) append -/
theorem Spans.append (hs : Spans h head (some t) ps) {index : Int} {p : Nat} (hp : p ∉ ps)
    (hindex : (h p).frameIndex = toInt16 index) (hlast : index > (h t).frameIndex) :
    Links h ps index p ((h.setNext p none).setNext t (some p), head, some p) (ps ++ [p]) := by
  obtain ⟨pre, rfl⟩ := List.getLast?_eq_some_iff.mp hs.tail.symm
  refine ⟨⟨?_, ?_, ?_⟩, List.perm_append_singleton p _, ?_, ?_⟩
  · have hinsert := hs.linked.insert pre hs.nodup hp
    rw [show h.next t = none from hs.linked.behind pre] at hinsert
    rw [FrameHeap.next_setNext, FrameHeap.next_setNext, List.append_assoc]
    exact hinsert
  · rw [List.getLast?_concat]
  · refine List.nodup_append.mpr ⟨hs.nodup, List.nodup_singleton p, ?_⟩
    intro a ha b hb hab
    rw [hab, List.mem_singleton.mp hb] at ha
    exact hp ha
  · rw [FrameHeap.view_setNext, FrameHeap.view_setNext]
  · unfold DataFrameStorage.linkFrame
    rw [if_pos, List.map_append, List.map_singleton, FrameHeap.view, hindex]
    rw [List.map_append, List.map_singleton, List.getLast?_concat]
    exact decide_eq_true hlast

/-- b) prepend -/
theorem Spans.prepend (hs : Spans h (some first) tail (first :: rest)) {index : Int} {p : Nat}
    (hp : p ∉ first :: rest) (hindex : (h p).frameIndex = toInt16 index)
    (hlast : (((first :: rest).map h.view).getLast?.any fun f => decide (index > f.1)) = false)
    (hfirst : index < (h first).frameIndex) :
    Links h (first :: rest) index p (h.setNext p (some first), some p, tail)
      (p :: first :: rest) := by
  refine ⟨⟨?_, ?_, List.nodup_cons.mpr ⟨hp, hs.nodup⟩⟩, .refl _, FrameHeap.view_setNext .., ?_⟩
  · rw [FrameHeap.next_setNext]
    exact hs.linked.prepend hp
  · rw [List.getLast?_cons_cons]
    exact hs.tail
  · rw [List.map_cons] at hlast
    have hlist := @linkFrame_cons index (h p).data (h.view first) (rest.map h.view) hlast
    rw [if_pos (show index < (h.view first).1 from hfirst)] at hlist
    rw [List.map_cons, List.map_cons, hlist, ← hindex]
    rfl

/-- c) insert -/
theorem Spans.insert (hs : Spans h (some first) tail (first :: rest)) {index : Int} {p fuel : Nat}
    (hp : p ∉ first :: rest) (hindex : (h p).frameIndex = toInt16 index)
    (hlast : (((first :: rest).map h.view).getLast?.any fun f => decide (index > f.1)) = false)
    (hfirst : ¬ index < (h first).frameIndex) (hfuel : rest.length ≤ fuel) :
    let prev := walk h.next (fun q => decide (index > (h q).frameIndex)) fuel first
    let h' := (h.setNext p (h prev).next).setNext prev (some p)
    Links h (first :: rest) index p (h', some first, if (h' p).next = none then some p else tail)
      (first :: insertBehind (fun q => decide (index > (h q).frameIndex)) p rest) := by
  obtain ⟨pre, post, hold, hnew⟩ := walk_insert (fun q => decide (index > (h q).frameIndex)) p rest
    hs.linked.2 hfuel
  intro prev h'
  change first :: rest = pre ++ prev :: post at hold
  change _ = pre ++ prev :: p :: post at hnew
  have hperm := ((perm_insertBehind (fun q => decide (index > (h q).frameIndex)) p rest).cons
    first).trans (.swap p first rest)
  have hlist := @linkFrame_cons index (h p).data (h.view first) (rest.map h.view) hlast
  rw [if_neg (show ¬ index < (h.view first).1 from hfirst), insertFrame_map h hindex] at hlist
  have hlinked := hs.linked
  have htail := hs.tail
  have hnodup := hs.nodup
  have hp' := hp
  rw [hold] at hp' hlinked htail hnodup
  have hne : p ≠ prev := by
    intro hc
    exact hp' (hc ▸ List.mem_append_right pre (List.mem_cons_self ..))
  have hnext : (h' p).next = (h prev).next := by
    show h'.next p = h.next prev
    rw [FrameHeap.next_setNext, FrameHeap.next_setNext, Function.update_of_ne hne,
      Function.update_self]
    rfl
  refine ⟨⟨?_, ?_, (hperm.nodup_iff).mpr (List.nodup_cons.mpr ⟨hp, hs.nodup⟩)⟩, hperm, ?_,
    hlist.symm⟩
  · rw [hnew]
    show Linked h'.next _ _
    rw [FrameHeap.next_setNext, FrameHeap.next_setNext]
    exact hlinked.insert pre hnodup hp'
  · rw [hnew]
    show (if (h' p).next = none then some p else tail) = _
    rw [hnext]
    cases post with
    | nil =>
      rw [if_pos (show (h prev).next = none from hlinked.behind pre), List.getLast?_append_cons,
        List.getLast?_cons_cons, List.getLast?_singleton]
    | cons q post =>
      have hsome : (h prev).next = some q := (hlinked.behind pre).1
      rw [if_neg (by rw [hsome]; exact nofun), htail, List.getLast?_append_cons,
        List.getLast?_append_cons, List.getLast?_cons_cons, List.getLast?_cons_cons,
        List.getLast?_cons_cons]
  · show h'.view = h.view
    rw [FrameHeap.view_setNext, FrameHeap.view_setNext]

/-- **Linking a frame is `linkFrame`**, and keeps the tail the last frame. -/
theorem link_spans (hs : Spans h head tail ps) {index : Int} {p fuel : Nat} (hp : p ∉ ps)
    (hindex : (h p).frameIndex = toInt16 index) (hfuel : ps.length ≤ fuel) :
    ∃ ps', Links h ps index p (link h head tail index p fuel) ps' := by
  have hlast := hs.filter_tail index
  unfold link
  cases hfilter : tail.filter fun t => decide (index > (h t).frameIndex) with
  | some t =>
    obtain ⟨rfl, hgt⟩ := Option.filter_eq_some_iff.mp hfilter
    exact ⟨_, hs.append hp hindex (of_decide_eq_true hgt)⟩
  | none =>
    rw [hfilter] at hlast
    cases ps with
    | nil =>
      rw [show head = none from hs.linked]
      refine ⟨[p], ⟨⟨rfl, ?_⟩, ?_, List.nodup_singleton p⟩, .refl _, FrameHeap.view_setNext .., ?_⟩
      · exact next_self ..
      · show (if (h.setNext p none p).next = none then some p else tail) = some p
        rw [if_pos (next_self ..)]
      · rw [List.map_singleton, FrameHeap.view, hindex]
        rfl
    | cons first rest =>
      obtain rfl := hs.linked.1
      dsimp only
      by_cases hfirst : index < (h first).frameIndex
      · have hlinks := hs.prepend hp hindex hlast hfirst
        rw [FrameStorage.insert, if_pos hfirst]
        dsimp only
        rw [if_neg (by rw [next_self]; exact nofun)]
        exact ⟨_, hlinks⟩
      · rw [List.length_cons] at hfuel
        rw [FrameStorage.insert, if_neg hfirst]
        exact ⟨_, hs.insert hp hindex hlast hfirst (Nat.le_of_succ_le hfuel)⟩

/-! ## Looking up frames -/

/-- The search is that of the list of frames. -/
theorem findFrame_eq (h : FrameHeap) (index : Int) :
    ∀ (ps : List Nat) {head : Option Nat} {fuel : Nat}, Linked h.next head ps →
      ps.length ≤ fuel →
      findFrame h index fuel head = DataFrameStorage.findFrame index (ps.map h.view) := by
  intro ps
  induction ps with
  | nil =>
    intro head fuel hlinked _
    rw [show head = none from hlinked]
    cases fuel with
    | zero => rfl
    | succ fuel => rfl
  | cons p ps ih =>
    intro head fuel hlinked hfuel
    obtain ⟨rfl, hrest⟩ := hlinked
    cases fuel with
    | zero => exact absurd hfuel (Nat.not_succ_le_zero _)
    | succ fuel =>
      rw [findFrame, List.map_cons, DataFrameStorage.findFrame.eq_def]
      dsimp only
      rw [show (h p).next = h.next p from rfl, ih hrest (Nat.le_of_succ_le_succ hfuel)]
      rfl

/-- An index that does not fit is not found in any list. -/
theorem findFrame_false (h : FrameHeap) {index : Int} (hindex : 32767 < index) :
    ∀ (fuel : Nat) (head : Option Nat), findFrame h index fuel head = false := by
  intro fuel
  induction fuel with
  | zero =>
    intro head
    rfl
  | succ fuel ih =>
    intro head
    cases head with
    | none => rfl
    | some p =>
      have := (h p).frameIndex_range
      rw [findFrame, if_neg (by omega), if_neg (by omega), ih]

/-! ## Any order -/

/-- Frames are added one after the other, each with its index and address. -/
def addAll (h : FrameHeap) (n : Nat) (adds : List (Nat × Nat)) : FrameHeap × FrameStorage :=
  adds.foldl (fun r a => addFrame r.1 r.2 a.1 a.2) (h, init n)

/-- The address of the frame with an index. -/
def address (adds : List (Nat × Nat)) (index : Nat) : Option Nat :=
  (adds.find? fun a => a.1 == index).map (·.2)

/-- The frames `adds` have been added to a storage for `n` frames; `h₀` is the memory from
before. -/
structure Built (h₀ : FrameHeap) (n : Nat) (adds : List (Nat × Nat)) (h : FrameHeap)
    (s : FrameStorage) : Prop where
  size : s.size = n
  data : ∀ p, (h p).data = (h₀ p).data
  index : ∀ a ∈ adds, (h a.2).frameIndex = toInt16 a.1
  small : n ≤ smallFrameLimit → ∃ frames, s.data = .vec frames ∧
    frames.length = smallFrameLimit ∧ ∀ i < n, frames.getD i none = address adds i
  large : smallFrameLimit < n → ∃ head tail bitset ps, s.data = .list head tail bitset ∧
    Spans h head tail ps ∧ ps.Perm (adds.map (·.2)) ∧
    (∀ i < frameLimit, bitset.testBit i = decide (i ∈ adds.map (·.1))) ∧
    ((∀ a ∈ adds, a.1 ≤ 32767) → (ps.map h.view).Pairwise fun f g => f.1 < g.1)

variable {h₀ : FrameHeap} {n : Nat} {adds : List (Nat × Nat)} {s : FrameStorage}

/-- No frame has been added. -/
theorem built_init (h₀ : FrameHeap) (n : Nat) : Built h₀ n [] h₀ (init n) := by
  have hlarge := DataFrameStorage.isLarge_eq n
  refine ⟨rfl, fun _ => rfl, fun a ha => absurd ha List.not_mem_nil, ?_, ?_⟩
  · intro hn
    refine ⟨List.replicate smallFrameLimit none, ?_, List.length_replicate .., ?_⟩
    · rw [init, hlarge, if_neg (by rw [decide_eq_true_iff]; omega)]
    · intro i hi
      rw [List.getD_eq_getElem?_getD, List.getElem?_replicate]
      split
      · rfl
      · rfl
  · intro hn
    refine ⟨none, none, 0, [], ?_, ⟨rfl, rfl, List.nodup_nil⟩, .refl _, ?_, ?_⟩
    · rw [init, hlarge, if_pos (decide_eq_true hn)]
    · intro i _
      rw [Nat.zero_testBit]
      rfl
    · intro _
      exact List.Pairwise.nil

/-- The first frame with an index counts. -/
theorem address_append (adds : List (Nat × Nat)) (a : Nat × Nat) (i : Nat) :
    address (adds ++ [a]) i = (address adds i).or (if a.1 = i then some a.2 else none) := by
  rw [address, address, List.find?_append]
  cases adds.find? fun b => b.1 == i with
  | some b => rfl
  | none =>
    rw [Option.none_or, List.find?_cons]
    by_cases hi : a.1 = i
    · rw [if_pos hi, (beq_iff_eq).mpr hi]
      rfl
    · rw [if_neg hi, (beq_eq_false_iff_ne).mpr hi]
      rfl

/-- An index that was not added has no frame. -/
theorem address_eq_none {i : Nat} (hi : i ∉ adds.map (·.1)) : address adds i = none := by
  rw [address, Option.map_eq_none_iff, List.find?_eq_none]
  intro a ha hc
  exact hi (List.mem_map.mpr ⟨a, ha, beq_iff_eq.mp hc⟩)

/-- A bit more. -/
theorem testBit_or (bitset index i : Nat) :
    (bitset ||| 1 <<< index).testBit i = (bitset.testBit i || decide (i = index)) := by
  rw [Nat.testBit_or, Nat.one_shiftLeft, Nat.testBit_two_pow]
  by_cases hi : i = index
  · rw [hi]
  · rw [decide_eq_false (fun hc => hi hc.symm), decide_eq_false hi]

/-- The frames that have been added keep their indices. -/
theorem Built.index_setIndex (hb : Built h₀ n adds h s) {a : Nat × Nat}
    (haddress : a.2 ∉ adds.map (·.2)) :
    ∀ b ∈ adds ++ [a], (h.setIndex a.2 a.1 b.2).frameIndex = toInt16 b.1 := by
  intro b hmem
  rcases List.mem_append.mp hmem with hmem | hmem
  · have hne : b.2 ≠ a.2 := fun heq => haddress (List.mem_map.mpr ⟨b, hmem, heq⟩)
    rw [h.setIndex_of_ne hne]
    exact hb.index b hmem
  · rw [List.mem_singleton.mp hmem]
    exact h.frameIndex_setIndex_self ..

/-- The bytes of the frames are never touched. -/
theorem Built.data_setIndex (hb : Built h₀ n adds h s) (a : Nat × Nat) :
    ∀ p, (h.setIndex a.2 a.1 p).data = (h₀ p).data := by
  intro p
  rw [h.data_setIndex]
  exact hb.data p

/-- One more frame in the array. -/
theorem Built.addSmall (hb : Built h₀ n adds h s) {a : Nat × Nat} (hindex : a.1 ∉ adds.map (·.1))
    (haddress : a.2 ∉ adds.map (·.2)) (hlt : a.1 < n) (hsmall : n ≤ smallFrameLimit) :
    Built h₀ n (adds ++ [a]) (addFrame h s a.1 a.2).1 (addFrame h s a.1 a.2).2 := by
  obtain ⟨frames, hvec, hlength, hframes⟩ := hb.small hsmall
  have hadd : FrameStorage.addFrame h s a.1 a.2 =
      (h.setIndex a.2 a.1, { s with data := .vec (frames.set a.1 (some a.2)) }) := by
    unfold FrameStorage.addFrame
    rw [hvec]
    dsimp only
    rw [if_pos (Int.natCast_nonneg _), Int.toNat_natCast]
  rw [hadd]
  refine ⟨hb.size, hb.data_setIndex a, hb.index_setIndex haddress, ?_,
    fun hl => absurd hl (Nat.not_lt.mpr hsmall)⟩
  intro _
  refine ⟨_, rfl, by rw [List.length_set, hlength], ?_⟩
  intro i hi
  rw [address_append, List.getD_eq_getElem?_getD]
  by_cases heq : a.1 = i
  · rw [← heq, List.getElem?_set_self (by omega), address_eq_none hindex, if_pos rfl]
    rfl
  · rw [List.getElem?_set_ne heq, if_neg heq, Option.or_none, ← List.getD_eq_getElem?_getD]
    exact hframes i hi

/-- With indices that fit, no frame of the list has the index of a new one. -/
theorem Built.index_ne (hb : Built h₀ n adds h s) {i : Nat} (hindex : i ∉ adds.map (·.1))
    (hfit : ∀ b ∈ adds, b.1 ≤ 32767) {ps : List Nat} (hperm : ps.Perm (adds.map (·.2))) :
    ∀ f ∈ ps.map h.view, f.1 ≠ (i : Int) := by
  intro f hf heq
  obtain ⟨q, hq, rfl⟩ := List.mem_map.mp hf
  obtain ⟨b, hmem, rfl⟩ := List.mem_map.mp (hperm.mem_iff.mp hq)
  have h16 : (h b.2).frameIndex = b.1 := by
    have := hfit b hmem
    rw [hb.index b hmem]
    exact toInt16_of_range (by omega) (by omega)
  have hsame : b.1 = i := Int.ofNat_inj.mp (h16.symm.trans heq)
  exact hindex (hsame ▸ List.mem_map_of_mem hmem)

/-- One more frame in the list. -/
theorem Built.addLarge (hb : Built h₀ n adds h s) {a : Nat × Nat} (hindex : a.1 ∉ adds.map (·.1))
    (haddress : a.2 ∉ adds.map (·.2)) (hlen : adds.length ≤ n) (hlarge : smallFrameLimit < n) :
    Built h₀ n (adds ++ [a]) (addFrame h s a.1 a.2).1 (addFrame h s a.1 a.2).2 := by
  obtain ⟨head, tail, bitset, ps, hlist, hspans, hperm, hbits, hasc⟩ := hb.large hlarge
  have hp : a.2 ∉ ps := fun hc => haddress (hperm.mem_iff.mp hc)
  -- writing the index of the new frame changes none of the list
  have hold : ps.map (h.setIndex a.2 a.1).view = ps.map h.view := by
    refine List.map_congr_left fun q hq => ?_
    have hne : q ≠ a.2 := by
      intro hc
      rw [hc] at hq
      exact hp hq
    rw [FrameHeap.view, h.setIndex_of_ne hne]
    rfl
  have hspans₁ : Spans (h.setIndex a.2 a.1) head tail ps := by
    refine ⟨?_, hspans.tail, hspans.nodup⟩
    rw [FrameHeap.next_setIndex]
    exact hspans.linked
  have hfuel : ps.length ≤ s.size.toNat := by
    rw [hperm.length_eq, List.length_map, hb.size, Int.toNat_natCast]
    exact hlen
  obtain ⟨ps', hlinks⟩ := link_spans hspans₁ hp (h.frameIndex_setIndex_self ..) hfuel
  unfold FrameStorage.addFrame
  rw [hlist]
  dsimp only
  revert hlinks
  generalize link (h.setIndex a.2 a.1) head tail a.1 a.2 s.size.toNat = r
  intro hlinks
  have hview : ∀ p, r.1.view p = (h.setIndex a.2 a.1).view p := congrFun hlinks.view
  refine ⟨hb.size, ?_, ?_, fun hs => absurd hlarge (Nat.not_lt.mpr hs), ?_⟩
  · intro p
    exact (congrArg Prod.snd (hview p)).trans (hb.data_setIndex a p)
  · intro b hmem
    exact (congrArg Prod.fst (hview b.2)).trans (hb.index_setIndex haddress b hmem)
  intro _
  refine ⟨_, _, _, ps', rfl, hlinks.spans, ?_, ?_, ?_⟩
  · rw [List.map_append, List.map_singleton]
    exact (hlinks.perm.trans (hperm.cons a.2)).trans (List.perm_append_singleton ..).symm
  · intro i hi
    have hmem : decide (i ∈ (adds ++ [a]).map (·.1)) =
        (decide (i ∈ adds.map (·.1)) || decide (i = a.1)) := by
      rw [← Bool.decide_or, List.map_append, List.map_singleton]
      refine decide_eq_decide.mpr ?_
      rw [List.mem_append, List.mem_singleton]
    rw [hmem, Int.toNat_natCast]
    split
    · rw [testBit_or, hbits i hi]
    next hout => rw [hbits i hi, decide_eq_false (by omega : ¬ i = a.1), Bool.or_false]
  · -- with indices that fit, the new one belongs where it is put
    intro hfit
    have hfit' : ∀ b ∈ adds, b.1 ≤ 32767 := fun b hmem => hfit b (List.mem_append_left _ hmem)
    have hle := hfit a (List.mem_append_right _ (List.mem_singleton_self a))
    rw [hlinks.view, hlinks.list, hold]
    exact (DataFrameStorage.linkFrame_eq ⟨Int.natCast_nonneg _, by omega⟩ _ (hasc hfit')
      (hb.index_ne hindex hfit' hperm)).1

/-- There are no more frames than indices. -/
theorem length_le (hindices : (adds.map (·.1)).Nodup) (hlt : ∀ a ∈ adds, a.1 < n) :
    adds.length ≤ n := by
  have hsub : adds.map (·.1) ⊆ List.range n := by
    intro i hi
    obtain ⟨b, hmem, rfl⟩ := List.mem_map.mp hi
    exact List.mem_range.mpr (hlt b hmem)
  have := (List.subperm_of_subset hindices hsub).length_le
  rwa [List.length_map, List.length_range] at this

/-- **All frames.** -/
theorem built_addAll (h₀ : FrameHeap) (n : Nat) :
    ∀ adds : List (Nat × Nat), (adds.map (·.1)).Nodup → (adds.map (·.2)).Nodup →
      (∀ a ∈ adds, a.1 < n) → Built h₀ n adds (addAll h₀ n adds).1 (addAll h₀ n adds).2 := by
  intro adds
  induction adds using List.reverseRecOn with
  | nil =>
    intro _ _ _
    exact built_init h₀ n
  | append_singleton adds a ih =>
    intro hindices haddresses hlt
    rw [List.map_append, List.map_singleton] at hindices haddresses
    obtain ⟨hindices', -, hindex⟩ := List.nodup_append.mp hindices
    obtain ⟨haddresses', -, haddress⟩ := List.nodup_append.mp haddresses
    have hlt' : ∀ b ∈ adds, b.1 < n := fun b hb => hlt b (List.mem_append_left _ hb)
    have hb := ih hindices' haddresses' hlt'
    have hnew : a.1 ∉ adds.map (·.1) := fun hc =>
      hindex a.1 hc a.1 (List.mem_singleton_self _) rfl
    have hfresh : a.2 ∉ adds.map (·.2) := fun hc =>
      haddress a.2 hc a.2 (List.mem_singleton_self _) rfl
    rw [addAll, List.foldl_append]
    show Built h₀ n _ (FrameStorage.addFrame _ _ _ _).1 (FrameStorage.addFrame _ _ _ _).2
    by_cases hsmall : n ≤ smallFrameLimit
    · exact hb.addSmall hnew hfresh (hlt a (List.mem_append_right _ (List.mem_singleton_self a)))
        hsmall
    · exact hb.addLarge hnew hfresh (length_le hindices' hlt') (Nat.not_le.mp hsmall)

/-! ## Faithful storages -/

/-- An index has a frame if it was added. -/
theorem address_isSome (adds : List (Nat × Nat)) (i : Nat) :
    (address adds i).isSome = decide (i ∈ adds.map (·.1)) := by
  by_cases hi : i ∈ adds.map (·.1)
  · obtain ⟨a, ha, rfl⟩ := List.mem_map.mp hi
    rw [address, Option.isSome_map, decide_eq_true hi, List.find?_isSome]
    exact ⟨a, ha, beq_self_eq_true _⟩
  · rw [address_eq_none hi, decide_eq_false hi]
    rfl

/-- With different indices each frame has its own. -/
theorem address_of_mem (hindices : (adds.map (·.1)).Nodup) {a : Nat × Nat} (ha : a ∈ adds) :
    address adds a.1 = some a.2 := by
  cases hfind : adds.find? fun b => b.1 == a.1 with
  | none => exact absurd (beq_self_eq_true a.1) (List.find?_eq_none.mp hfind a ha)
  | some b =>
    have hbeq : (b.1 == a.1) = true := by
      have := List.find?_some hfind
      exact this
    have hmem : b ∈ adds := List.mem_of_find?_eq_some hfind
    rw [address, hfind, List.inj_on_of_nodup_map hindices hmem ha (beq_iff_eq.mp hbeq)]
    rfl

/-- The storage `s` tells of exactly the frames in `adds`: a list visits them by index and
knows its last frame, and once all frames are there, their data comes out in the order
of the indices. -/
structure Faithful (h₀ : FrameHeap) (n : Nat) (adds : List (Nat × Nat)) (h : FrameHeap)
    (s : FrameStorage) : Prop where
  hasFrame : ∀ i : Nat, i < n → s.hasFrame h i = decide (i ∈ adds.map (·.1))
  sorted : ∀ head tail bitset, s.data = .list head tail bitset →
    ∃ order : List (Nat × Nat), order.Perm adds ∧ (order.Pairwise fun a b => a.1 < b.1) ∧
      Linked h.next head (order.map (·.2)) ∧ tail = (order.map (·.2)).getLast?
  copied : (∀ i < n, i ∈ adds.map (·.1)) → s.copyFrames h =
    (List.range n).flatMap fun i => (address adds i).elim [] fun p => (h₀ p).data

/-- The array of few frames holds what was added. -/
theorem Built.faithful_small (hb : Built h₀ n adds h s) (hsmall : n ≤ smallFrameLimit) :
    Faithful h₀ n adds h s := by
  obtain ⟨frames, hvec, -, hframes⟩ := hb.small hsmall
  refine ⟨?_, ?_, ?_⟩
  · intro i hi
    unfold FrameStorage.hasFrame
    rw [hvec]
    dsimp only
    rw [Int.toNat_natCast, hframes i hi, address_isSome]
  · intro head tail bitset hlist
    rw [hvec] at hlist
    cases hlist
  · intro _
    unfold copyFrames
    rw [hvec, hb.size, Int.toNat_natCast]
    refine List.flatMap_congr fun i hi => ?_
    rw [hframes i (List.mem_range.mp hi)]
    cases address adds i with
    | none => rfl
    | some p => exact hb.data p

/-- The frames in a list, in its order. -/
theorem Built.order (hb : Built h₀ n adds h s) (hfit : ∀ a ∈ adds, a.1 ≤ 32767) {ps : List Nat}
    (hperm : ps.Perm (adds.map (·.2)))
    (hasc : (ps.map h.view).Pairwise fun f g => f.1 < g.1) :
    ∃ order : List (Nat × Nat), order.Perm adds ∧ (order.Pairwise fun a b => a.1 < b.1) ∧
      ps = order.map (·.2) ∧ ps.map h.view = order.map fun a => ((a.1 : Int), (h₀ a.2).data) := by
  have hindex : ∀ a ∈ adds, (h a.2).frameIndex = a.1 := by
    intro a ha
    have := hfit a ha
    rw [hb.index a ha]
    exact toInt16_of_range (by omega) (by omega)
  have horder : (ps.map fun p => ((h p).frameIndex.toNat, p)).Perm adds := by
    refine (hperm.map _).trans (.of_eq ?_)
    rw [List.map_map]
    refine (List.map_congr_left fun a ha => ?_).trans (List.map_id adds)
    show ((h a.2).frameIndex.toNat, a.2) = a
    rw [hindex a ha, Int.toNat_natCast]
  have hnonneg : ∀ p ∈ ps, 0 ≤ (h p).frameIndex := by
    intro p hp
    obtain ⟨a, ha, rfl⟩ := List.mem_map.mp (hperm.mem_iff.mp hp)
    rw [hindex a ha]
    exact Int.natCast_nonneg _
  refine ⟨ps.map fun p => ((h p).frameIndex.toNat, p), horder, ?_, ?_, ?_⟩
  · rw [List.pairwise_map] at hasc ⊢
    refine hasc.imp_of_mem fun {p q} hp hq hlt => ?_
    have := hnonneg p hp
    change (h p).frameIndex < (h q).frameIndex at hlt
    show (h p).frameIndex.toNat < (h q).frameIndex.toNat
    omega
  · rw [List.map_map]
    exact (List.map_id ps).symm
  · rw [List.map_map]
    refine List.map_congr_left fun p hp => ?_
    show ((h p).frameIndex, (h p).data) = (((h p).frameIndex.toNat : Int), (h₀ p).data)
    rw [Int.toNat_of_nonneg (hnonneg p hp), hb.data p]

/-- The list of many frames holds what was added, as long as their indices fit. -/
theorem Built.faithful_large (hb : Built h₀ n adds h s) (hindices : (adds.map (·.1)).Nodup)
    (hlt : ∀ a ∈ adds, a.1 < n) (hfit : ∀ a ∈ adds, a.1 ≤ 32767)
    (hlarge : smallFrameLimit < n) : Faithful h₀ n adds h s := by
  obtain ⟨head, tail, bitset, ps, hlist, hspans, hperm, hbits, hasc⟩ := hb.large hlarge
  have hfuel : ps.length ≤ s.size.toNat := by
    rw [hperm.length_eq, List.length_map, hb.size, Int.toNat_natCast]
    exact length_le hindices hlt
  obtain ⟨order, horder, hless, rfl, hview⟩ := hb.order hfit hperm (hasc hfit)
  refine ⟨?_, ?_, ?_⟩
  · intro i hi
    unfold FrameStorage.hasFrame
    rw [hlist]
    dsimp only
    split
    -- the bits are enough for the first frames, the others are looked for in the list
    next hbit =>
      rw [Int.toNat_natCast, hbits i (by omega)]
    next =>
      rw [findFrame_eq h i _ hspans.linked hfuel, DataFrameStorage.findFrame_eq (hasc hfit), hview]
      refine decide_eq_decide.mpr ⟨?_, ?_⟩
      · rintro ⟨f, hf, heq⟩
        obtain ⟨a, ha, rfl⟩ := List.mem_map.mp hf
        exact List.mem_map.mpr ⟨a, horder.mem_iff.mp ha, Int.ofNat_inj.mp heq⟩
      · intro hmem
        obtain ⟨a, ha, rfl⟩ := List.mem_map.mp hmem
        exact ⟨_, List.mem_map_of_mem (horder.mem_iff.mpr ha), rfl⟩
  · intro head' tail' bitset' hlist'
    rw [hlist] at hlist'
    cases hlist'
    exact ⟨order, horder, hless, hspans.linked, hspans.tail⟩
  · intro hall
    have hrange : order.map (·.1) = List.range n := by
      refine eq_of_ascending (r := (· < ·)) (fun a b hab => by omega) ?_ List.pairwise_lt_range ?_
      · exact List.pairwise_map.mpr hless
      · intro i
        rw [(horder.map _).mem_iff, List.mem_range]
        refine ⟨?_, hall i⟩
        intro hi
        obtain ⟨a, ha, rfl⟩ := List.mem_map.mp hi
        exact hlt a ha
    unfold copyFrames
    rw [hlist]
    dsimp only
    rw [nodes_eq _ hspans.linked hfuel, ← hrange, List.flatMap_map, List.flatMap_map]
    refine List.flatMap_congr fun a ha => ?_
    rw [address_of_mem hindices (horder.mem_iff.mp ha), hb.data]
    rfl

/-- A frame whose index does not fit is not found. -/
theorem Built.hasFrame_false (hb : Built h₀ n adds h s) {i : Nat} (hi : i < n) (hfit : 32767 < i) :
    s.hasFrame h i = false := by
  have hlarge : smallFrameLimit < n := by
    show 6 < n
    omega
  obtain ⟨head, tail, bitset, ps, hlist, -⟩ := hb.large hlarge
  have hout : ¬ ((0 : Int) ≤ i ∧ (i : Int) < frameLimit) := by
    show ¬ ((0 : Int) ≤ i ∧ (i : Int) < (256 : Nat))
    omega
  unfold FrameStorage.hasFrame
  rw [hlist]
  dsimp only
  rw [if_neg hout]
  exact findFrame_false h (by omega) ..

/-- **The storage is faithful exactly if every index fits into 16 bits.** -/
theorem frames_iff (h₀ : FrameHeap) (n : Nat) :
    ∀ adds : List (Nat × Nat), (adds.map (·.1)).Nodup → (adds.map (·.2)).Nodup →
      (∀ a ∈ adds, a.1 < n) →
      (Faithful h₀ n adds (addAll h₀ n adds).1 (addAll h₀ n adds).2 ↔
        ∀ a ∈ adds, a.1 ≤ 32767) := by
  intro adds hindices haddresses hlt
  have hb := built_addAll h₀ n adds hindices haddresses hlt
  refine ⟨?_, ?_⟩
  · intro hf a ha
    by_contra hc
    have hhas := hf.hasFrame a.1 (hlt a ha)
    rw [hb.hasFrame_false (hlt a ha) (Nat.not_le.mp hc),
      decide_eq_true (List.mem_map_of_mem ha)] at hhas
    cases hhas
  · intro hfit
    by_cases hsmall : n ≤ smallFrameLimit
    · exact hb.faithful_small hsmall
    · exact hb.faithful_large hindices hlt hfit (Nat.not_le.mp hsmall)

/-- Three of seven frames, the last one first. -/
theorem faithful_list :
    Faithful (fun _ => { data := [] }) 7 [(6, 0), (1, 2), (4, 1)]
      (addAll (fun _ => { data := [] }) 7 [(6, 0), (1, 2), (4, 1)]).1
      (addAll (fun _ => { data := [] }) 7 [(6, 0), (1, 2), (4, 1)]).2 :=
  (frames_iff (fun _ => { data := [] }) 7 _ (by decide) (by decide) (by decide)).mpr (by decide)

/-- A block of 40000 frames does not know of its frame 32768. -/
theorem frame_lost :
    ¬ Faithful (fun _ => { data := [] }) 40000 [(32768, 0)]
      (addAll (fun _ => { data := [] }) 40000 [(32768, 0)]).1
      (addAll (fun _ => { data := [] }) 40000 [(32768, 0)]).2 := by
  intro hf
  have hlt : ∀ a ∈ [((32768 : Nat), (0 : Nat))], a.1 < 40000 := by
    intro a ha
    rw [List.mem_singleton.mp ha]
    omega
  have hb := built_addAll (fun _ => { data := [] }) 40000 [(32768, 0)] (List.nodup_singleton _)
    (List.nodup_singleton _) hlt
  have hhas := hf.hasFrame 32768 (by omega)
  rw [hb.hasFrame_false (by omega) (by omega),
    decide_eq_true (List.mem_map_of_mem (List.mem_singleton_self _))] at hhas
  cases hhas

end

end FrameStorage

end Aoo.Stream
