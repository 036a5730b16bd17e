import Aoo.Memory.Layout

/-!
# Blocks that are handed out never overlap

A run of the pool is a sequence of calls of `allocate` and `deallocate`, and of writes by the owners
of the blocks in between. Each block is given back at most once and with the size it was
allocated with, and the default allocator returns memory that nobody else uses. Then no
assertion fails, and in every state the blocks in use and the free ones cut the used
part of the arena into pieces (`LaidOut`).

Main result: `blocks_laid_out`.
-/

namespace Aoo

open Lib

namespace Pool

variable {c : PoolConfig} {p p' : Pool} {held free : List Block} {b : Block}

/-- What `allocate` returns for a size that the pool serves. -/
inductive Allocated (c : PoolConfig) (p : Pool) (held free : List Block) (size : Nat)
    (heap : Option Nat) : Pool × Option Nat → Prop
  /-- A block of the arena. -/
  | block {p' : Pool} {b : Block} {free' : List Block} (hindex : sizeToIndex size = .ok b.bucket)
      (hsize : size ≤ b.length) (hdata : p'.data = p.data) (hlimit : p'.size = p.size)
      (hlaid : Laid c p' (b :: held) free') :
      Allocated c p held free size heap (p', some (p.data + b.start))
  /-- Memory of the default allocator. -/
  | heap (hgrow : c.grow = true) : Allocated c p held free size heap (p, heap)
  | exhausted : Allocated c p held free size heap (p, none)

theorem Laid.allocate (h : Laid c p held free) {size : Nat} (hpos : 0 < size)
    (hmax : size ≤ largeAllocLimit) (heap : Option Nat) :
    ∃ r, p.allocate c size heap = .ok r ∧ Allocated c p held free size heap r := by
  obtain ⟨i, hindex, hi, hsize, halloc⟩ := sizeToIndex_spec hpos hmax
  obtain ⟨r, hfind, hserved⟩ := h.findBlock hindex hi
  unfold Pool.allocate allocateBlock
  rw [if_neg (Nat.not_lt_of_le hmax), if_pos hpos, hfind]
  obtain ⟨p', ptr⟩ := r
  cases ptr with
  | some ptr =>
    obtain ⟨b, free', rfl, rfl, hdata, hlimit, hlaid⟩ := hserved
    have hlength := (hlaid.sized b List.mem_cons_self).length
    refine ⟨(p', some (p.data + b.start)), ?_,
      .block hindex (Nat.le_trans hsize hlength) hdata hlimit hlaid⟩
    show (Except.ok (p', if c.grow && false then heap else some (p.data + b.start)) :
      Checked (Pool × Option Nat)) = _
    rw [Bool.and_false]
    rfl
  | none =>
    have hsame : p' = p := hserved
    subst hsame
    show ∃ r, (getAllocSize size >>= fun n => _) >>= _ = .ok r ∧ _
    rw [halloc]
    show ∃ r, (Except.ok ((p'.linearAllocate (bucketSizes i)).1,
      if c.grow && (p'.linearAllocate (bucketSizes i)).2.isNone then heap
      else (p'.linearAllocate (bucketSizes i)).2) : Checked (Pool × Option Nat)) = .ok r ∧ _
    refine ⟨_, rfl, ?_⟩
    unfold linearAllocate
    by_cases hroom : bucketSizes i ≤ p'.size - p'.index
    · rw [if_pos hroom]
      simp only [Option.isNone_some, Bool.and_false]
      exact Allocated.block (b := ⟨i, p'.index, bucketSizes i⟩) hindex hsize rfl rfl
        (h.extend hi hroom)
    · rw [if_neg hroom]
      cases hgrow : c.grow with
      | false => exact .exhausted
      | true => exact .heap hgrow

/-- A block that is given back. -/
theorem Laid.returnBlock (h : Laid c p (b :: held) free) {size : Nat}
    (hindex : sizeToIndex size = .ok b.bucket) :
    p.returnBlock c (p.data + b.start) size = .ok (p.pushBlock c (p.data + b.start) b.bucket) := by
  have hsized := h.sized b List.mem_cons_self
  have hinside : b.start + b.length ≤ p.index := h.tiles.inside b.span List.mem_cons_self
  have hlength := hsized.length
  have hbucket := lt_bucketSizes b.bucket hsized.bucket
  have hused := h.used
  unfold Pool.returnBlock
  rw [hindex]
  show (check (b.bucket < bucketCount) >>= fun _ => check (b.bucket < p.size) >>= fun _ => _) = _
  rw [check, if_pos hsized.bucket, check, if_pos (by omega)]
  rfl

end Pool

/-! ## Runs -/

/-- A pool and the blocks in use, each with the size it was allocated with. -/
structure PoolUse where
  pool : Pool
  live : List (Nat × Nat)

/-- What happens to a pool. -/
inductive PoolCall
  /-- `allocate`, where the default allocator returns `heap` if it is asked. -/
  | allocate (size : Nat) (heap : Option Nat)
  | deallocate (ptr size : Nat)
  /-- The owners of blocks write to them. -/
  | write (memory : Nat → Nat)

namespace PoolUse

def step (c : PoolConfig) (s : PoolUse) : PoolCall → Checked PoolUse
  | .allocate size heap => do
    let (pool, ptr) ← s.pool.allocate c size heap
    match ptr with
    | some ptr => return ⟨pool, (ptr, size) :: s.live⟩
    | none => return ⟨pool, s.live⟩
  | .deallocate ptr size => do
    let pool ← s.pool.deallocate c ptr size
    return ⟨pool, s.live.erase (ptr, size)⟩
  | .write memory => return { s with pool := { s.pool with memory } }

/-- A new pool whose arena has the given memory. -/
def start (c : PoolConfig) (size memory : Nat) (contents : Nat → Nat) : PoolUse :=
  ⟨.resize c size memory contents, []⟩

/-- The bytes of a block in use. -/
def bytes (b : Nat × Nat) : Span := ⟨b.1, b.2⟩

/-- What the default allocator and the users of the pool promise: memory from the default
allocator is used by nobody else, a block is given back once and with its size, and only
the bytes of blocks in use are written (a word has at most 8 of them). -/
def Allowed (s : PoolUse) : PoolCall → Prop
  | .allocate size heap => ∀ q, heap = some q → q ≠ 0 ∧
      Span.Apart ⟨s.pool.data, s.pool.size⟩ ⟨q, size⟩ ∧ ∀ b ∈ s.live, (bytes b).Apart ⟨q, size⟩
  | .deallocate ptr size => size = 0 ∨ (ptr, size) ∈ s.live
  | .write memory => ∀ a, memory a ≠ s.pool.memory a →
      ∃ b ∈ s.live, b.1 < a + 8 ∧ a < b.1 + b.2

/-- Where everything is: blocks of the arena in use, with the sizes they were allocated
with, free blocks, and blocks of the default allocator. -/
structure Layout where
  held : List (Block × Nat)
  free : List Block
  heap : List (Nat × Nat)

/-- The blocks are laid out as they should. -/
structure LaidOut (c : PoolConfig) (s : PoolUse) (L : Layout) : Prop where
  /-- These are the blocks in use. -/
  live : s.live.Perm (L.held.map (fun x => (s.pool.data + x.1.start, x.2)) ++ L.heap)
  /-- The blocks of the arena do not overlap, and each is long enough for its bucket. -/
  laid : s.pool.Laid c (L.held.map Prod.fst) L.free
  /-- A block in use is long enough for what was asked for. -/
  held : ∀ x ∈ L.held, (0 < x.2 ∧ x.2 ≤ largeAllocLimit) ∧ sizeToIndex x.2 = .ok x.1.bucket ∧
    x.2 ≤ x.1.length
  data : 0 < s.pool.data ∧ 64 ∣ s.pool.data
  /-- The other blocks are elsewhere. -/
  outside : ∀ a ∈ L.heap, a.1 ≠ 0 ∧ Span.Apart ⟨s.pool.data, s.pool.size⟩ (bytes a) ∧
    (c.grow = true ∧ 0 < a.2 ∨ largeAllocLimit < a.2)
  apart : L.heap.Pairwise fun a b => (bytes a).Apart (bytes b)

variable {c : PoolConfig} {s : PoolUse} {L : Layout}

theorem LaidOut.mem_heap (h : LaidOut c s L) {a : Nat × Nat} (ha : a ∈ L.heap) : a ∈ s.live :=
  h.live.mem_iff.mpr (List.mem_append_right _ ha)

/-- A new block of the default allocator. -/
theorem LaidOut.addHeap (h : LaidOut c s L) {q size : Nat}
    (hallowed : s.Allowed (.allocate size (some q)))
    (hsize : c.grow = true ∧ 0 < size ∨ largeAllocLimit < size) :
    LaidOut c ⟨s.pool, (q, size) :: s.live⟩ { L with heap := (q, size) :: L.heap } := by
  obtain ⟨hq, harena, hlive⟩ := hallowed q rfl
  refine { h with live := ?_, outside := ?_, apart := ?_ }
  · exact (h.live.cons _).trans List.perm_middle.symm
  · intro a ha
    rcases List.mem_cons.mp ha with rfl | ha
    · exact ⟨hq, harena, hsize⟩
    · exact h.outside a ha
  · refine List.pairwise_cons.mpr ⟨fun a ha => ?_, h.apart⟩
    exact (hlive a (h.mem_heap ha)).symm

theorem LaidOut.allocate (h : LaidOut c s L) {size : Nat} {heap : Option Nat}
    (hallowed : s.Allowed (.allocate size heap)) :
    ∃ s' L', s.step c (.allocate size heap) = .ok s' ∧ LaidOut c s' L' := by
  by_cases hlarge : largeAllocLimit < size
  · -- The default allocator is asked at once.
    have heq : s.pool.allocate c size heap = .ok (s.pool, heap) := if_pos hlarge
    rw [step, heq]
    cases heap with
    | none => exact ⟨s, L, rfl, h⟩
    | some q => exact ⟨_, _, rfl, h.addHeap hallowed (.inr hlarge)⟩
  by_cases hpos : 0 < size
  · obtain ⟨r, heq, hr⟩ := h.laid.allocate hpos (Nat.le_of_not_lt hlarge) heap
    rw [step, heq]
    cases hr with
    | @block p' b free' hindex hsize hdata hlimit hlaid =>
      refine ⟨⟨p', (s.pool.data + b.start, size) :: s.live⟩, ⟨(b, size) :: L.held, free', L.heap⟩,
        rfl, ?_⟩
      refine ⟨?_, hlaid, ?_, ?_, ?_, h.apart⟩
      · rw [hdata]
        exact h.live.cons _
      · intro x hx
        rcases List.mem_cons.mp hx with rfl | hx
        · exact ⟨⟨hpos, Nat.le_of_not_lt hlarge⟩, hindex, hsize⟩
        · exact h.held x hx
      · rw [hdata]
        exact h.data
      · rw [hdata, hlimit]
        exact h.outside
    | heap hgrow =>
      cases heap with
      | none => exact ⟨s, L, rfl, h⟩
      | some q => exact ⟨_, _, rfl, h.addHeap hallowed (.inl ⟨hgrow, hpos⟩)⟩
    | exhausted => exact ⟨s, L, rfl, h⟩
  · have heq : s.pool.allocate c size heap = .ok (s.pool, none) := by
      unfold Pool.allocate
      rw [if_neg hlarge, if_neg hpos]
    rw [step, heq]
    exact ⟨s, L, rfl, h⟩

/-- A block in use has bytes. -/
theorem LaidOut.size_pos (h : LaidOut c s L) {b : Nat × Nat} (hb : b ∈ s.live) : 0 < b.2 := by
  rcases List.mem_append.mp (h.live.mem_iff.mp hb) with hb | hb
  · obtain ⟨x, hx, rfl⟩ := List.mem_map.mp hb
    exact (h.held x hx).1.1
  · rcases (h.outside b hb).2.2 with hsize | hsize
    · exact hsize.2
    · exact Nat.zero_lt_of_lt hsize

/-- A block of the arena lies in it. -/
theorem LaidOut.inside (h : LaidOut c s L) {x : Block × Nat} (hx : x ∈ L.held) :
    x.1.start + x.1.length ≤ s.pool.size := by
  have hmem : x.1 ∈ L.held.map Prod.fst ++ L.free :=
    List.mem_append_left _ (List.mem_map_of_mem hx)
  exact Nat.le_trans (h.laid.tiles.inside x.1.span (List.mem_map_of_mem hmem)) h.laid.used

/-- A block of the arena is given back. -/
theorem LaidOut.returnHeld {held₁ held₂ : List (Block × Nat)} {x : Block × Nat}
    {free : List Block} {heap : List (Nat × Nat)}
    (h : LaidOut c s ⟨held₁ ++ x :: held₂, free, heap⟩) :
    ∃ s' L', s.step c (.deallocate (s.pool.data + x.1.start) x.2) = .ok s' ∧ LaidOut c s' L' := by
  have hx : x ∈ held₁ ++ x :: held₂ := List.mem_append_right _ List.mem_cons_self
  obtain ⟨⟨hpos, hmax⟩, hindex, hsize⟩ := h.held x hx
  have hinside := h.inside hx
  have hdata := h.data.1
  have hlaid : s.pool.Laid c (x.1 :: (held₁ ++ held₂).map Prod.fst) free := by
    refine h.laid.congr ⟨rfl, rfl, rfl⟩ ?_ h.laid.lists
    exact (List.perm_middle.map Prod.fst).append_right free
  have hdeallocate : s.pool.deallocate c (s.pool.data + x.1.start) x.2 =
      .ok (s.pool.pushBlock c (s.pool.data + x.1.start) x.1.bucket) := by
    have hcontains : s.pool.contains (s.pool.data + x.1.start) = true := by
      unfold Pool.contains
      exact decide_eq_true ⟨by omega, by omega⟩
    unfold Pool.deallocate
    rw [if_neg (Nat.not_lt_of_le hmax), if_pos hpos, check, if_pos (by omega), hcontains,
      Bool.not_true, Bool.and_false]
    exact hlaid.returnBlock hindex
  have hsame := Pool.sameArena_pushBlock c s.pool (s.pool.data + x.1.start) x.1.bucket
  rw [step, hdeallocate]
  refine ⟨_, ⟨held₁ ++ held₂, x.1 :: free, heap⟩, rfl, ?_⟩
  refine ⟨?_, hlaid.push, ?_, ?_, ?_, h.apart⟩
  · rw [hsame.data]
    have hlive : s.live.Perm ((s.pool.data + x.1.start, x.2) ::
        ((held₁ ++ held₂).map (fun x => (s.pool.data + x.1.start, x.2)) ++ heap)) :=
      h.live.trans ((List.perm_middle.map _).append_right heap)
    have herase := hlive.erase (s.pool.data + x.1.start, x.2)
    rw [List.erase_cons_head] at herase
    exact herase
  · intro y hy
    refine h.held y ?_
    rcases List.mem_append.mp hy with hy | hy
    · exact List.mem_append_left _ hy
    · exact List.mem_append_right _ (List.mem_cons_of_mem _ hy)
  · rw [hsame.data]
    exact h.data
  · rw [hsame.data, hsame.size]
    exact h.outside

/-- A block of the default allocator is given back. -/
theorem LaidOut.returnHeap {held : List (Block × Nat)} {free : List Block} {a : Nat × Nat}
    {heap₁ heap₂ : List (Nat × Nat)} (h : LaidOut c s ⟨held, free, heap₁ ++ a :: heap₂⟩) :
    ∃ s' L', s.step c (.deallocate a.1 a.2) = .ok s' ∧ LaidOut c s' L' := by
  have ha : a ∈ heap₁ ++ a :: heap₂ := List.mem_append_right _ List.mem_cons_self
  obtain ⟨hne, harena, hkind⟩ := h.outside a ha
  have hdeallocate : s.pool.deallocate c a.1 a.2 = .ok s.pool := by
    unfold Pool.deallocate
    by_cases hlarge : largeAllocLimit < a.2
    · rw [if_pos hlarge]
    · obtain ⟨hgrow, hpos⟩ := hkind.resolve_right hlarge
      have hcontains : s.pool.contains a.1 = false := by
        unfold Pool.contains
        refine decide_eq_false fun hin => ?_
        rcases harena with harena | harena
        · simp only [bytes] at harena
          omega
        · simp only [bytes] at harena
          omega
      rw [if_neg hlarge, if_pos hpos, check, if_pos hne, hcontains, hgrow]
      rfl
  rw [step, hdeallocate]
  refine ⟨_, ⟨held, free, heap₁ ++ heap₂⟩, rfl, ?_⟩
  refine ⟨?_, h.laid, h.held, h.data, ?_, ?_⟩
  · have hlive : s.live.Perm (a ::
        (held.map (fun x => (s.pool.data + x.1.start, x.2)) ++ (heap₁ ++ heap₂))) :=
      h.live.trans ((List.perm_middle.append_left _).trans List.perm_middle)
    have herase := hlive.erase a
    rw [List.erase_cons_head] at herase
    exact herase
  · intro y hy
    refine h.outside y ?_
    rcases List.mem_append.mp hy with hy | hy
    · exact List.mem_append_left _ hy
    · exact List.mem_append_right _ (List.mem_cons_of_mem _ hy)
  · refine h.apart.sublist ?_
    exact List.Sublist.append_left (List.sublist_cons_self a heap₂) heap₁

theorem LaidOut.deallocate (h : LaidOut c s L) {ptr size : Nat}
    (hallowed : s.Allowed (.deallocate ptr size)) :
    ∃ s' L', s.step c (.deallocate ptr size) = .ok s' ∧ LaidOut c s' L' := by
  rcases hallowed with rfl | hlive
  · -- Nothing happens, and there is no block without bytes.
    have hnot : (ptr, 0) ∉ s.live := fun hmem => absurd (h.size_pos hmem) (Nat.lt_irrefl 0)
    have heq : s.step c (.deallocate ptr 0) = .ok ⟨s.pool, s.live.erase (ptr, 0)⟩ := rfl
    rw [heq, List.erase_of_not_mem hnot]
    exact ⟨s, L, rfl, h⟩
  obtain ⟨held, free, heap⟩ := L
  rcases List.mem_append.mp (h.live.mem_iff.mp hlive) with hmem | hmem
  · obtain ⟨x, hx, heq⟩ := List.mem_map.mp hmem
    obtain ⟨rfl, rfl⟩ := Prod.mk.inj heq
    obtain ⟨held₁, held₂, rfl⟩ := List.append_of_mem hx
    exact h.returnHeld
  · obtain ⟨heap₁, heap₂, rfl⟩ := List.append_of_mem hmem
    exact h.returnHeap

/-- Writing to the blocks in use does not touch the free lists. -/
theorem LaidOut.write (h : LaidOut c s L) {memory : Nat → Nat}
    (hallowed : s.Allowed (.write memory)) :
    LaidOut c ⟨{ s.pool with memory }, s.live⟩ L := by
  refine { h with laid := h.laid.congr ⟨rfl, rfl, rfl⟩ (List.Perm.refl _) fun i => ?_ }
  refine (h.laid.lists i).congr fun o ho => ?_
  obtain ⟨f, hf, rfl⟩ := Pool.mem_positions ho
  by_contra hne
  obtain ⟨b, hb, hlow, hhigh⟩ := hallowed (s.pool.data + f.start) hne
  have hmem : f ∈ L.held.map Prod.fst ++ L.free := List.mem_append_right _ hf
  have hsized := h.laid.sized f hmem
  have hmin := bucketSizes_ge f.bucket hsized.bucket
  have hlength := hsized.length
  have hinside : f.start + f.length ≤ s.pool.index :=
    h.laid.tiles.inside f.span (List.mem_map_of_mem hmem)
  have hused := h.laid.used
  rcases List.mem_append.mp (h.live.mem_iff.mp hb) with hb | hb
  · -- The first word of a free block is not in a block of the arena that is in use.
    obtain ⟨x, hx, rfl⟩ := List.mem_map.mp hb
    have hsize := (h.held x hx).2.2
    have happart := h.laid.tiles.apart
    rw [List.map_append] at happart
    have hdisjoint := (List.pairwise_append.mp happart).2.2 x.1.span
      (List.mem_map_of_mem (List.mem_map_of_mem hx)) f.span (List.mem_map_of_mem hf)
    rcases hdisjoint with hdisjoint | hdisjoint
    · simp only [Block.span] at hdisjoint hlow hhigh
      omega
    · simp only [Block.span] at hdisjoint hlow hhigh
      omega
  · rcases (h.outside b hb).2.1 with harena | harena
    · simp only [bytes] at harena
      omega
    · simp only [bytes] at harena
      omega

/-- No assertion fails in a step, and the layout is kept. -/
theorem LaidOut.step (h : LaidOut c s L) {a : PoolCall} (hallowed : s.Allowed a) :
    ∃ s' L', s.step c a = .ok s' ∧ LaidOut c s' L' := by
  cases a with
  | allocate size heap => exact h.allocate hallowed
  | deallocate ptr size => exact h.deallocate hallowed
  | write memory => exact ⟨_, L, rfl, h.write hallowed⟩

theorem laidOut_start (c : PoolConfig) {size memory : Nat} (contents : Nat → Nat)
    (hmemory : memory ≠ 0) (haddressable : min size c.maxPoolSize ≤ c.sentinel + 1) :
    LaidOut c (start c size memory contents) ⟨[], [], []⟩ where
  live := List.Perm.refl []
  laid := ⟨Nat.zero_le _, Nat.dvd_zero 64, haddressable, tiles_nil,
    fun _ h => absurd h List.not_mem_nil, fun _ h => absurd h List.not_mem_nil, fun _ => rfl⟩
  held := fun _ h => absurd h List.not_mem_nil
  data := by
    show 0 < (memory + 4096 - 1) / 4096 * 4096 ∧ 64 ∣ (memory + 4096 - 1) / 4096 * 4096
    exact ⟨by omega, Nat.dvd_mul_left_of_dvd (by decide) _⟩
  outside := fun _ h => absurd h List.not_mem_nil
  apart := List.Pairwise.nil

/-- **The pool never hands out overlapping memory.** In every run no assertion fails, and the blocks
in use and the free ones cut the used part of the arena into pieces that are long
enough and aligned. A block that is split is cut exactly into pieces of the sizes of their
buckets. -/
theorem blocks_laid_out (c : PoolConfig) {size memory : Nat} (contents : Nat → Nat)
    (hmemory : memory ≠ 0) (haddressable : min size c.maxPoolSize ≤ c.sentinel + 1)
    {calls : List PoolCall}
    (hcalls : RunAll (step c) Allowed (start c size memory contents) calls) :
    (∃ s L, run (step c) (start c size memory contents) calls = .ok s ∧ LaidOut c s L ∧
      ∀ x ∈ L.held, 64 ∣ s.pool.data + x.1.start) ∧
    ∀ (p : Pool) (ptr i j : Nat), i < bucketCount → j < i →
      ∃ is : List Nat, p.splitBlock c ptr i j = .ok (p.pushAll c (ptr + bucketSizes j) is) ∧
        (∀ k ∈ is, k < bucketCount) ∧
        bucketSizes j + (is.map bucketSizes).sum = bucketSizes i := by
  constructor
  · obtain ⟨s, hrun, ⟨L, hlaid⟩, -⟩ := run_total
      (I := fun s calls => (∃ L, LaidOut c s L) ∧ RunAll (step c) Allowed s calls)
      (by
        intro s a as ⟨⟨L, hlaid⟩, hallowed, hrest⟩
        obtain ⟨s', L', hstep, hlaid'⟩ := hlaid.step hallowed
        exact ⟨s', hstep, ⟨L', hlaid'⟩, hrest s' hstep⟩)
      ⟨⟨_, laidOut_start c contents hmemory haddressable⟩, hcalls⟩
    refine ⟨s, L, hrun, hlaid, fun x hx => Nat.dvd_add hlaid.data.2 ?_⟩
    exact hlaid.laid.aligned x.1 (List.mem_append_left _ (List.mem_map_of_mem hx))
  · intro p ptr i j hi hj
    obtain ⟨is, his, hsum, heq⟩ := splitBlock_eq c p ptr hi hj
    exact ⟨is, heq, his, hsum⟩

/-- The pool of a desktop platform. -/
def desktop : PoolConfig := ⟨true, true, true, true, true⟩

/-- One megabyte at address 4096. -/
def sampleArena (c : PoolConfig) : PoolUse := start c 1048576 4096 fun _ => 0

/-- A block is given back and used again. -/
def sampleCalls : List PoolCall := [.allocate 100 none, .deallocate 4096 100, .allocate 65 none]

theorem allowed_sampleCalls :
    RunAll (step desktop) Allowed (sampleArena desktop) sampleCalls := by
  refine ⟨nofun, fun s₁ h₁ => ?_⟩
  obtain rfl := Except.ok.inj h₁
  refine ⟨.inr List.mem_cons_self, fun s₂ h₂ => ?_⟩
  obtain rfl := Except.ok.inj h₂
  exact ⟨nofun, fun _ _ => trivial⟩

theorem reused_block_laid_out :
    (run (step desktop) (sampleArena desktop) sampleCalls).map PoolUse.live = .ok [(4096, 65)] ∧
      ∃ s L, run (step desktop) (sampleArena desktop) sampleCalls = .ok s ∧ LaidOut desktop s L := by
  refine ⟨rfl, ?_⟩
  obtain ⟨⟨s, L, hrun, hlaid, -⟩, -⟩ := blocks_laid_out desktop (fun _ => 0) (by decide) (by decide)
    allowed_sampleCalls
  exact ⟨s, L, hrun, hlaid⟩

/-- Memory of the default allocator is aligned as it likes. -/
theorem heap_block_not_aligned :
    RunAll (step desktop) Allowed (sampleArena desktop) [.allocate 70000 (some 16777232)] ∧
      (run (step desktop) (sampleArena desktop) [.allocate 70000 (some 16777232)]).map
        PoolUse.live = .ok [(16777232, 70000)] ∧
      ¬ 64 ∣ 16777232 := by
  refine ⟨⟨?_, fun _ _ => trivial⟩, rfl, by decide⟩
  intro q hq
  cases hq
  exact ⟨by decide, .inl (by decide), fun _ h => absurd h List.not_mem_nil⟩

/-- Positions are stored in bytes. With 16 bits for them, a block behind the first 64 KiB comes back
as another one, which may be in use. -/
theorem narrow_index_overlaps :
    (run (step ⟨true, true, false, false, false⟩) (sampleArena ⟨true, true, false, false, false⟩)
      [.allocate 65535 none, .allocate 64 none, .deallocate 69632 64, .allocate 64 none]).map
        PoolUse.live = .ok [(4096, 64), (4096, 65535)] := by
  decide +kernel

end PoolUse

end Aoo
