import Aoo.Lib.Run
import Aoo.Memory.Pool

/-!
# The index over the free lists

`bitset_` has one bit for each bucket, so that a search for a larger block need not look into every
free list. `update_bitset` writes the bit after each push and pop from
`!empty()`, but `free_list::empty` compares with the sentinel the wrong way round: the bit is
set when the bucket has just become empty. So a set bit never leads to a block
(`search_never_finds`), and a larger free block is never used again.

A run is a sequence of calls on one pool, which begins as the constructor leaves it.
`reset` and `resize` empty the free lists and leave the bits as they are. The counters of the leak
detection only serve an error message of debug builds and are left out.

Main result: `bitset_exact_iff`.
-/

namespace Aoo

open Lib

namespace Pool

/-- A pool as the constructor leaves it. -/
def constructed (c : PoolConfig) : Pool where
  data := 0
  size := 0
  index := 0
  buckets := fun _ => c.sentinel
  bitset := fun _ => 0
  memory := fun _ => 0

/-- `rt_memory_pool::reset`. -/
def reset (c : PoolConfig) (p : Pool) : Pool :=
  { p with index := 0, buckets := fun _ => c.sentinel }

/-- `rt_memory_pool::resize`, with the memory that `resize` takes for a new pool. -/
def resizeArena (c : PoolConfig) (p : Pool) (size memory : Nat) (contents : Nat → Nat) : Pool :=
  reset c { resize c size memory contents with bitset := p.bitset }

/-- The first `resize` of a pool. -/
theorem resizeArena_constructed (c : PoolConfig) (size memory : Nat) (contents : Nat → Nat) :
    (constructed c).resizeArena c size memory contents = resize c size memory contents := rfl

/-- What is done with a pool. -/
inductive Op
  /-- `allocate`, where the default allocator returns `heap` if it is asked. -/
  | allocate (size : Nat) (heap : Option Nat)
  | deallocate (ptr size : Nat)
  | reset
  /-- `resize`, where the arena gets the memory at address `memory`. -/
  | resize (size memory : Nat) (contents : Nat → Nat)
  /-- The owners of blocks write to them. -/
  | write (memory : Nat → Nat)

def step (c : PoolConfig) (p : Pool) : Op → Checked Pool
  | .allocate size heap => do
    let (p, _) ← p.allocate c size heap
    return p
  | .deallocate ptr size => p.deallocate c ptr size
  | .reset => .ok (p.reset c)
  | .resize size memory contents => .ok (p.resizeArena c size memory contents)
  | .write memory => .ok { p with memory }

/-! ## What the bits say -/

/-- `tagged_bitset::get` for the bit of a bucket. -/
def bit (c : PoolConfig) (p : Pool) (index : Nat) : Bool :=
  (p.bitset (index / c.width)).testBit (index &&& (c.width - 1))

/-- The bit of a bucket says whether there is a block in it. -/
def Tracks (c : PoolConfig) (p : Pool) (index : Nat) : Prop :=
  p.bit c index = true ↔ (p.pop c index).isSome = true

/-- The pushes of `split_block`, each with its bucket and the pool after it. -/
def splitTouched (c : PoolConfig) (p : Pool) (memPtr memSize : Nat) : List (Nat × Pool) :=
  if memSize = 0 then []
  else
    match sizeToIndex memSize with
    | .error _ => []
    | .ok index =>
      if largeBucketOffset ≤ index then
        let index := index - 1
        let p := p.pushBlock c memPtr index
        let blockSize := bucketSizes index
        (index, p) :: splitTouched c p (memPtr + blockSize) (memSize - blockSize)
      else [(index, p.pushBlock c memPtr index)]
termination_by memSize
decreasing_by
  exact Nat.sub_lt (Nat.pos_of_ne_zero ‹_›) (bucketSizes_pos _)

/-- The pops and pushes of `find_block`, each with its bucket and the pool after it. -/
def findTouched (c : PoolConfig) (p : Pool) (index : Nat) : List (Nat × Pool) :=
  match p.popBlock c index with
  | some (_, p) => [(index, p)]
  | none =>
    match p.scanWords c index (index / c.width) (bucketCount / c.width) with
    | some (blockIndex, ptr, p) =>
      let allocSize := bucketSizes index
      (blockIndex, p) :: if largeBucketOffset ≤ blockIndex then
        p.splitTouched c (ptr + allocSize) (bucketSizes blockIndex - allocSize) else []
    | none => []

/-- A block goes back to its bucket. -/
def Returns (c : PoolConfig) (p : Pool) (ptr size : Nat) : Prop :=
  0 < size ∧ size ≤ largeAllocLimit ∧ ¬ (c.grow = true ∧ p.contains ptr = false)

instance (c : PoolConfig) (p : Pool) (ptr size : Nat) : Decidable (p.Returns c ptr size) :=
  inferInstanceAs (Decidable (_ ∧ _))

/-- The pushes and pops of a call, each with its bucket and the pool after it. -/
def touched (c : PoolConfig) (p : Pool) : Op → List (Nat × Pool)
  | .allocate size _ =>
    if 0 < size ∧ size ≤ largeAllocLimit then
      match sizeToIndex size with
      | .ok index => p.findTouched c index
      | .error _ => []
    else []
  | .deallocate ptr size =>
    if p.Returns c ptr size then
      match sizeToIndex size with
      | .ok index => [(index, p.pushBlock c ptr index)]
      | .error _ => []
    else []
  | _ => []

/-- What an allocation does to the buckets, one after the other. -/
theorem touched_allocate (c : PoolConfig) (p : Pool) (size : Nat) (heap : Option Nat) :
    p.touched c (.allocate size heap) = if 0 < size ∧ size ≤ largeAllocLimit then
      match sizeToIndex size with
      | .ok index => p.findTouched c index
      | .error _ => []
    else [] := rfl

/-- What a returned block does to them. -/
theorem touched_deallocate (c : PoolConfig) (p : Pool) (ptr size : Nat) :
    p.touched c (.deallocate ptr size) = if p.Returns c ptr size then
      match sizeToIndex size with
      | .ok index => [(index, p.pushBlock c ptr index)]
      | .error _ => []
    else [] := rfl

/-- The search with the bitset finds what the scan of the free lists finds. -/
def SearchAgrees (c : PoolConfig) (p : Pool) : Prop :=
  ∀ start < bucketCount,
    (p.scanWords c start (start / c.width) (bucketCount / c.width)).map Prod.fst =
      (p.scanBuckets c start bucketCount).map Prod.fst

/-- `allocate` is served from the free lists if there is a larger free block. -/
def Reuses (c : PoolConfig) (p : Pool) : Op → Prop
  | .allocate size _ =>
    0 < size → size ≤ largeAllocLimit → ∀ index, sizeToIndex size = .ok index →
      (∃ j, index < j ∧ j < bucketCount ∧ (p.pop c j).isSome = true) →
      ∃ p' ptr, p.findBlock c size = .ok (p', some ptr)
  | _ => True

/-- The bitset is exact in a call, and for any search before it. -/
structure Exact (c : PoolConfig) (p : Pool) (op : Op) : Prop where
  tracks : ∀ e ∈ p.touched c op, e.2.Tracks c e.1
  agrees : p.SearchAgrees c
  reuses : p.Reuses c op

/-- No block goes back to its bucket. -/
def Keeps (c : PoolConfig) (p : Pool) : Op → Prop
  | .deallocate ptr size => ¬ p.Returns c ptr size
  | _ => True

/-! ## Set bits -/

variable {c : PoolConfig} {p q : Pool}

/-- One bit is set or cleared. -/
theorem testBit_setBit (bits i j : Nat) (state : Bool) :
    (setBit bits i state).testBit j = if j = i then state else bits.testBit j := by
  unfold setBit
  cases state with
  | true =>
    rw [if_pos rfl, Nat.testBit_or, Nat.one_shiftLeft, Nat.testBit_two_pow]
    by_cases hij : j = i
    · simp [hij]
    · simp [hij, Ne.symm hij]
  | false =>
    rw [if_neg Bool.false_ne_true, Nat.testBit_xor, Nat.testBit_and, Nat.one_shiftLeft,
      Nat.testBit_two_pow]
    by_cases hij : j = i
    · simp [hij]
    · simp [hij, Ne.symm hij]

/-- A word has bits. -/
theorem width_pos (c : PoolConfig) : 0 < c.width := by
  unfold PoolConfig.width
  split <;> omega

/-- The width is a power of two. -/
theorem and_width (c : PoolConfig) (index : Nat) : index &&& (c.width - 1) = index % c.width := by
  unfold PoolConfig.width
  split
  · exact Nat.and_two_pow_sub_one_eq_mod index 5
  · exact Nat.and_two_pow_sub_one_eq_mod index 4

/-- What `update_bitset` writes. -/
theorem bit_updateBitset (c : PoolConfig) (p : Pool) (index : Nat) :
    (p.updateBitset c index).bit c index = !p.empty c index := by
  unfold bit updateBitset
  simp only [Function.update_self]
  rw [testBit_setBit, if_pos rfl]

/-- **The index is inverted**: after a push or a pop of a bucket its bit is set exactly if the
bucket is empty. -/
theorem not_tracks_updateBitset (c : PoolConfig) (p : Pool) (index : Nat) :
    ¬ (p.updateBitset c index).Tracks c index := by
  unfold Tracks
  rw [bit_updateBitset]
  have hsame : (p.updateBitset c index).buckets index = p.buckets index := rfl
  unfold pop empty
  rw [hsame]
  by_cases hhead : p.buckets index = c.sentinel
  · simp [hhead]
  · simp [hhead]

/-- A set bit belongs to an empty bucket. -/
def SetMeansEmpty (c : PoolConfig) (p : Pool) : Prop :=
  ∀ k i, (p.bitset k).testBit i = true → i < c.width ∧ p.buckets (k * c.width + i) = c.sentinel

/-- At first all bits are set and all buckets empty. -/
theorem setMeansEmpty_constructed (c : PoolConfig) : (constructed c).SetMeansEmpty c := by
  intro k i h
  exact absurd h (by simp [constructed])

/-- The bit of a bucket follows what is in it. -/
theorem SetMeansEmpty.updateBitset (h : p.SetMeansEmpty c) {index : Nat}
    (hbits : q.bitset = p.bitset) (hother : ∀ j, j ≠ index → q.buckets j = p.buckets j) :
    (q.updateBitset c index).SetMeansEmpty c := by
  intro k i hset
  show i < c.width ∧ q.buckets (k * c.width + i) = c.sentinel
  by_cases hsame : k = index / c.width ∧ i = index % c.width
  · -- This is the bit that is written.
    obtain ⟨rfl, rfl⟩ := hsame
    have hbit := bit_updateBitset c q index
    unfold bit at hbit
    rw [and_width, hset] at hbit
    have hempty : q.buckets index = c.sentinel := by
      simpa [empty] using hbit
    rw [Nat.div_add_mod' index c.width]
    exact ⟨Nat.mod_lt _ (width_pos c), hempty⟩
  · have hold : (p.bitset k).testBit i = true := by
      unfold Pool.updateBitset at hset
      rw [hbits] at hset
      by_cases hk : k = index / c.width
      · subst hk
        simp only [Function.update_self] at hset
        rw [testBit_setBit, and_width] at hset
        rwa [if_neg fun hi => hsame ⟨rfl, hi⟩] at hset
      · simp only [Function.update_of_ne hk] at hset
        exact hset
    obtain ⟨hlt, hempty⟩ := h k i hold
    refine ⟨hlt, ?_⟩
    rw [hother _ ?_, hempty]
    rintro rfl
    refine hsame ⟨?_, ?_⟩
    · rw [Nat.mul_comm, Nat.mul_add_div (width_pos c), Nat.div_eq_of_lt hlt, Nat.add_zero]
    · rw [Nat.mul_comm, Nat.mul_add_mod, Nat.mod_eq_of_lt hlt]

/-- A bucket with a block has its bit cleared. -/
theorem SetMeansEmpty.pushBlock (h : p.SetMeansEmpty c) (hbitset : c.useBitset = true)
    (ptr index : Nat) : (p.pushBlock c ptr index).SetMeansEmpty c := by
  unfold Pool.pushBlock
  simp only [hbitset, if_true]
  exact h.updateBitset rfl fun j hj => Function.update_of_ne hj _ _

/-- A bucket whose last block goes has its bit set. -/
theorem SetMeansEmpty.popBlock (h : p.SetMeansEmpty c) (hbitset : c.useBitset = true)
    {index ptr : Nat} (hpop : p.popBlock c index = some (ptr, q)) : q.SetMeansEmpty c := by
  unfold Pool.popBlock Pool.pop at hpop
  by_cases hhead : p.buckets index = c.sentinel
  · simp [hhead] at hpop
  · simp only [hhead, if_false, hbitset, if_true, Option.some.injEq, Prod.mk.injEq] at hpop
    rw [← hpop.2]
    exact h.updateBitset rfl fun j hj => Function.update_of_ne hj _ _

/-! ## The search -/

/-- Nothing is popped from an empty bucket. -/
theorem popBlock_empty {index : Nat} (h : p.buckets index = c.sentinel) :
    p.popBlock c index = none := by
  unfold popBlock pop
  rw [if_pos h]

/-- A search through set bits finds only empty buckets. -/
theorem SetMeansEmpty.scanBits (h : p.SetMeansEmpty c) (start k : Nat) :
    ∀ n, p.scanBits c start k (p.bitset k) n = none ∨
      p.scanBits c start k (p.bitset k) n = some none := by
  intro n
  induction n with
  | zero => exact .inl rfl
  | succ i ih =>
    rw [Pool.scanBits]
    split
    next hset =>
      dsimp only
      split
      next =>
        rw [popBlock_empty (h k i hset).2]
        exact ih
      next => exact .inr rfl
    next => exact ih

/-- **The bitset never leads to a block**: every bucket that the search tries is empty. -/
theorem SetMeansEmpty.scanWords (h : p.SetMeansEmpty c) (start offset : Nat) :
    ∀ n, p.scanWords c start offset n = none := by
  intro n
  induction n with
  | zero => rfl
  | succ k ih =>
    rw [Pool.scanWords]
    split
    next => rfl
    next =>
      split
      next => exact ih
      next =>
        rcases h.scanBits start k (Nat.log2 (p.bitset k) + 1) with hscan | hscan
        · rw [hscan]
          exact ih
        · rw [hscan]

/-- Without a search, a block comes from the bucket of its size. -/
theorem SetMeansEmpty.findBlock (h : p.SetMeansEmpty c) (hbitset : c.useBitset = true) {size : Nat}
    {r : Pool × Option Nat} (hfind : p.findBlock c size = .ok r) :
    r = (p, none) ∨ ∃ index ptr, p.popBlock c index = some (ptr, r.1) := by
  unfold Pool.findBlock at hfind
  cases hindex : sizeToIndex size with
  | error e =>
    rw [hindex] at hfind
    cases hfind
  | ok index =>
    rw [hindex] at hfind
    change (check (index < bucketCount) >>= fun _ => _) = Except.ok r at hfind
    unfold check at hfind
    split at hfind
    next =>
      change (match p.popBlock c index with
        | some (ptr, p) => Except.ok (p, some ptr)
        | none => p.findMatchingBlock c index) = Except.ok r at hfind
      cases hpop : p.popBlock c index with
      | some x =>
        rw [hpop] at hfind
        cases hfind
        exact .inr ⟨index, x.1, hpop⟩
      | none =>
        rw [hpop] at hfind
        simp only [findMatchingBlock, hbitset, if_true, h.scanWords] at hfind
        cases hfind
        exact .inl rfl
    next => cases hfind

/-- What changes the arena and leaves the free lists alone. -/
theorem SetMeansEmpty.congr (h : p.SetMeansEmpty c) (hbits : q.bitset = p.bitset)
    (hbuckets : q.buckets = p.buckets) : q.SetMeansEmpty c := by
  intro k i hset
  rw [hbits] at hset
  rw [hbuckets]
  exact h k i hset

/-- `reset` empties buckets and sets bits. -/
theorem SetMeansEmpty.reset (h : p.SetMeansEmpty c) : (p.reset c).SetMeansEmpty c :=
  fun k i hset => ⟨(h k i hset).1, rfl⟩

/-- New memory from the end of the arena concerns no bucket. -/
theorem linearAllocate_same (p : Pool) (size : Nat) :
    (p.linearAllocate size).1.bitset = p.bitset ∧
      (p.linearAllocate size).1.buckets = p.buckets := by
  unfold linearAllocate
  split
  next => exact ⟨rfl, rfl⟩
  next => exact ⟨rfl, rfl⟩

/-- The free lists after `allocate` are those after `find_block`, or those before it. -/
theorem allocate_cases {size : Nat} {heap : Option Nat} {r : Pool × Option Nat}
    (h : p.allocate c size heap = .ok r) :
    r.1 = p ∨ ∃ found : Pool × Option Nat, p.findBlock c size = .ok found ∧
      r.1.bitset = found.1.bitset ∧ r.1.buckets = found.1.buckets := by
  unfold Pool.allocate allocateBlock at h
  split at h
  next => exact .inl (by cases h; rfl)
  next =>
    split at h
    next =>
      cases hfind : p.findBlock c size with
      | error e =>
        rw [hfind] at h
        cases h
      | ok found =>
        refine .inr ⟨found, rfl, ?_⟩
        rw [hfind] at h
        obtain ⟨p', _ | ptr⟩ := found
        · -- The end of the arena is asked.
          cases halloc : getAllocSize size with
          | error e =>
            rw [halloc] at h
            cases h
          | ok allocSize =>
            rw [halloc] at h
            cases h
            exact linearAllocate_same p' allocSize
        · cases h
          exact ⟨rfl, rfl⟩
    next => exact .inl (by cases h; rfl)

/-- A block that goes back is pushed, and nothing else changes the pool. -/
theorem deallocate_cases {ptr size : Nat} (h : p.deallocate c ptr size = .ok q) :
    (¬ p.Returns c ptr size ∧ q = p) ∨
      (p.Returns c ptr size ∧ ∃ index, sizeToIndex size = .ok index ∧
        q = p.pushBlock c ptr index) := by
  unfold Pool.deallocate check at h
  split at h
  next hlarge =>
    cases h
    exact .inl ⟨fun hreturns => absurd hreturns.2.1 (Nat.not_le_of_lt hlarge), rfl⟩
  next hsmall =>
    split at h
    next hpos =>
      split at h
      next =>
        change (if (c.grow && !p.contains ptr) = true then Except.ok p
          else p.returnBlock c ptr size) = Except.ok q at h
        split at h
        next houtside =>
          cases h
          refine .inl ⟨fun hreturns => hreturns.2.2 ?_, rfl⟩
          simpa using houtside
        next hinside =>
          refine .inr ⟨⟨hpos, Nat.le_of_not_lt hsmall, by simpa using hinside⟩, ?_⟩
          unfold returnBlock check at h
          cases hindex : sizeToIndex size with
          | error e =>
            rw [hindex] at h
            cases h
          | ok index =>
            rw [hindex] at h
            refine ⟨index, rfl, ?_⟩
            change (if index < bucketCount then Except.ok () else Except.error _) >>=
              (fun _ => (if index < p.size then Except.ok () else Except.error _) >>=
                fun _ => pure (p.pushBlock c ptr index)) = Except.ok q at h
            split at h
            next =>
              split at h
              next =>
                cases h
                rfl
              next => cases h
            next => cases h
      next => cases h
    next hzero =>
      cases h
      exact .inl ⟨fun hreturns => hzero hreturns.1, rfl⟩

/-! ## Runs -/

/-- An allocation, as a step. -/
theorem step_allocate {size : Nat} {heap : Option Nat}
    (h : p.step c (.allocate size heap) = .ok q) :
    ∃ r, p.allocate c size heap = .ok r ∧ r.1 = q := by
  unfold step at h
  cases hr : p.allocate c size heap with
  | error e =>
    simp only [hr] at h
    cases h
  | ok r =>
    simp only [hr] at h
    cases h
    exact ⟨r, rfl, rfl⟩

/-- Every step keeps bits and buckets in agreement. -/
theorem SetMeansEmpty.step (h : p.SetMeansEmpty c) (hbitset : c.useBitset = true) {op : Op}
    (hstep : p.step c op = .ok q) : q.SetMeansEmpty c := by
  cases op with
  | allocate size heap =>
    obtain ⟨r, hr, rfl⟩ := step_allocate hstep
    rcases allocate_cases hr with hsame | ⟨found, hfind, hbits, hbuckets⟩
    · rw [hsame]
      exact h
    · refine SetMeansEmpty.congr ?_ hbits hbuckets
      rcases h.findBlock hbitset hfind with rfl | ⟨index, ptr, hpop⟩
      · exact h
      · exact h.popBlock hbitset hpop
  | deallocate ptr size =>
    rcases deallocate_cases hstep with ⟨-, rfl⟩ | ⟨-, index, -, rfl⟩
    · exact h
    · exact h.pushBlock hbitset ptr index
  | reset =>
    cases hstep
    exact h.reset
  | resize size memory contents =>
    cases hstep
    exact h.reset.congr rfl rfl
  | write memory =>
    cases hstep
    exact h.congr rfl rfl

/-- **No search ever finds a block.** Whatever was done with the pool, the bitset leads to none
of the free blocks. -/
theorem search_never_finds (c : PoolConfig) (hbitset : c.useBitset = true) {ops : List Op}
    {p : Pool} (hrun : run (step c) (constructed c) ops = .ok p) (start : Nat) :
    p.findMatchingBlock c start = .ok (p, none) := by
  have h : p.SetMeansEmpty c :=
    run_invariant (P := fun _ => True) (fun s a s' _ hs hstep => hs.step hbitset hstep)
      (fun _ _ => trivial) (setMeansEmpty_constructed c) hrun
  simp only [findMatchingBlock, hbitset, if_true, h.scanWords]

/-- Every bucket is empty. -/
def AllEmpty (c : PoolConfig) (p : Pool) : Prop :=
  ∀ i, p.buckets i = c.sentinel

/-- Empty buckets give nothing. -/
theorem AllEmpty.scanBuckets (h : p.AllEmpty c) (start : Nat) :
    ∀ n, p.scanBuckets c start n = none := by
  intro n
  induction n with
  | zero => rfl
  | succ i ih =>
    rw [Pool.scanBuckets]
    split
    next =>
      rw [popBlock_empty (h i)]
      exact ih
    next => rfl

/-- What holds of a pool that was given no block back. -/
structure Unused (c : PoolConfig) (p : Pool) : Prop where
  set : p.SetMeansEmpty c
  empty : p.AllEmpty c

/-- In an unused pool both searches find nothing. -/
theorem Unused.agrees (h : p.Unused c) : p.SearchAgrees c := by
  intro start _
  rw [h.set.scanWords, h.empty.scanBuckets]

/-- So the bits of an unused pool are right. -/
theorem Unused.exact (h : p.Unused c) {op : Op} (hkeeps : p.Keeps c op) : p.Exact c op := by
  refine ⟨?_, h.agrees, ?_⟩
  · cases op with
    | allocate size heap =>
      intro e he
      rw [touched_allocate] at he
      split at he
      next =>
        split at he
        next index hindex =>
          unfold findTouched at he
          rw [popBlock_empty (h.empty index)] at he
          simp only [h.set.scanWords] at he
          exact absurd he List.not_mem_nil
        next => exact absurd he List.not_mem_nil
      next => exact absurd he List.not_mem_nil
    | deallocate ptr size =>
      intro e he
      rw [touched_deallocate, if_neg hkeeps] at he
      exact absurd he List.not_mem_nil
    | reset => exact List.forall_mem_nil _
    | resize => exact List.forall_mem_nil _
    | write => exact List.forall_mem_nil _
  · cases op with
    | allocate size heap =>
      rintro - - index - ⟨j, -, -, hj⟩
      unfold pop at hj
      rw [if_pos (h.empty j)] at hj
      cases hj
    | deallocate => exact trivial
    | reset => exact trivial
    | resize => exact trivial
    | write => exact trivial

/-- A pool that no block comes back to stays unused. -/
theorem Unused.step (h : p.Unused c) (hbitset : c.useBitset = true) {op : Op}
    (hkeeps : p.Keeps c op) (hstep : p.step c op = .ok q) : q.Unused c := by
  refine ⟨h.set.step hbitset hstep, ?_⟩
  cases op with
  | allocate size heap =>
    obtain ⟨r, hr, rfl⟩ := step_allocate hstep
    rcases allocate_cases hr with hsame | ⟨found, hfind, -, hbuckets⟩
    · rw [hsame]
      exact h.empty
    · rcases h.set.findBlock hbitset hfind with rfl | ⟨index, ptr, hpop⟩
      · intro i
        rw [hbuckets]
        exact h.empty i
      · rw [popBlock_empty (h.empty index)] at hpop
        cases hpop
  | deallocate ptr size =>
    rcases deallocate_cases hstep with ⟨-, rfl⟩ | ⟨hreturns, -⟩
    · exact h.empty
    · exact absurd hreturns hkeeps
  | reset =>
    cases hstep
    exact fun _ => rfl
  | resize size memory contents =>
    cases hstep
    exact fun _ => rfl
  | write memory =>
    cases hstep
    exact h.empty

/-- A call in which the bitset is exact gives no block back. -/
theorem Exact.keeps {op : Op} (h : p.Exact c op) (hbitset : c.useBitset = true)
    (hstep : p.step c op = .ok q) : p.Keeps c op := by
  cases op with
  | deallocate ptr size =>
    rcases deallocate_cases hstep with ⟨hnot, -⟩ | ⟨hreturns, index, hindex, -⟩
    · exact hnot
    · have htouched : (index, p.pushBlock c ptr index) ∈ p.touched c (.deallocate ptr size) := by
        rw [touched_deallocate, if_pos hreturns, hindex]
        exact List.mem_singleton_self _
      have htracks := h.tracks _ htouched
      unfold pushBlock at htracks
      simp only [hbitset, if_true] at htracks
      exact absurd htracks (not_tracks_updateBitset c _ index)
  | allocate => exact trivial
  | reset => exact trivial
  | resize => exact trivial
  | write => exact trivial

/-- The bitset is exact throughout a run. -/
structure BitsetExact (c : PoolConfig) (p : Pool) (ops : List Op) : Prop where
  calls : RunAll (step c) (Exact c) p ops
  /-- A search afterwards. -/
  after : ∀ q, run (step c) p ops = .ok q → q.SearchAgrees c

/-- **When the bitset is exact**: in a run in which no assertion fails, the bits say which buckets
have blocks and the search finds what a scan would exactly if no block of the arena is given
back. -/
theorem bitset_exact_iff (c : PoolConfig) (hbitset : c.useBitset = true) (ops : List Op) {p : Pool}
    (hrun : run (step c) (constructed c) ops = .ok p) :
    BitsetExact c (constructed c) ops ↔ RunAll (step c) (Keeps c) (constructed c) ops := by
  have hstart : (constructed c).Unused c := ⟨setMeansEmpty_constructed c, fun _ => rfl⟩
  revert hrun hstart
  generalize constructed c = s
  induction ops generalizing s with
  | nil =>
    intro _ hs
    refine iff_of_true ⟨trivial, fun q hq => ?_⟩ trivial
    cases hq
    exact hs.agrees
  | cons op ops ih =>
    intro hrun hs
    obtain ⟨s', hstep, hrest⟩ := run_cons_ok hrun
    constructor
    · intro h
      have hkeeps := h.calls.1.keeps hbitset hstep
      refine ⟨hkeeps, fun t ht => ?_⟩
      obtain rfl := Except.ok.inj (hstep.symm.trans ht)
      refine (ih s' hrest (hs.step hbitset hkeeps hstep)).mp ⟨h.calls.2 s' hstep, fun q hq => ?_⟩
      refine h.after q ?_
      rw [run, hstep]
      exact hq
    · intro h
      have hs' := (ih s' hrest (hs.step hbitset h.1 hstep)).mpr (h.2 s' hstep)
      refine ⟨⟨hs.exact h.1, fun t ht => ?_⟩, fun q hq => ?_⟩
      · obtain rfl := Except.ok.inj (hstep.symm.trans ht)
        exact hs'.calls
      · obtain ⟨t, ht, hq'⟩ := run_cons_ok hq
        obtain rfl := Except.ok.inj (hstep.symm.trans ht)
        exact hs'.after q hq'

/-- The pool of a 64-bit platform. -/
def hosted : PoolConfig := ⟨true, true, true, true, true⟩

/-- A block of 8192 bytes is given back. -/
def returnCalls : List Op :=
  [.resize 1048576 4096 fun _ => 0, .allocate 8192 none, .deallocate 4096 8192]

/-- A pool whose memory lasts. -/
theorem bitset_exact_fresh :
    BitsetExact hosted (constructed hosted)
      [.resize 1048576 4096 fun _ => 0, .allocate 8192 none, .deallocate 0 0] := by
  have hrun : ∃ p, run (step hosted) (constructed hosted)
      [.resize 1048576 4096 fun _ => 0, .allocate 8192 none, .deallocate 0 0] = .ok p := ⟨_, rfl⟩
  obtain ⟨p, hp⟩ := hrun
  refine (bitset_exact_iff hosted rfl _ hp).mpr ⟨trivial, fun _ _ => ⟨trivial, fun _ _ => ?_⟩⟩
  exact ⟨fun hreturns => absurd hreturns.1 (Nat.lt_irrefl 0), fun _ _ => trivial⟩

/-- A block of bucket 80 is free, the search does not find it, and the next request takes fresh
memory. -/
theorem freed_block_not_found :
    (run (step hosted) (constructed hosted) returnCalls).map (fun p => (p.index,
        (p.scanBuckets hosted 63 bucketCount).map Prod.fst,
        (p.scanWords hosted 63 (63 / hosted.width) (bucketCount / hosted.width)).map Prod.fst)) =
      .ok (8704, some 80, none) ∧
    (run (step hosted) (constructed hosted) (returnCalls ++ [.allocate 4096 none])).map
        (fun p => p.index) = .ok 12800 ∧
    ¬ BitsetExact hosted (constructed hosted) returnCalls := by
  have hfound : (run (step hosted) (constructed hosted) returnCalls).map (fun p => (p.index,
        (p.scanBuckets hosted 63 bucketCount).map Prod.fst,
        (p.scanWords hosted 63 (63 / hosted.width) (bucketCount / hosted.width)).map Prod.fst)) =
      .ok (8704, some 80, none) := by
    decide +kernel
  refine ⟨hfound, by decide +kernel, fun h => ?_⟩
  cases hrun : run (step hosted) (constructed hosted) returnCalls with
  | error e =>
    rw [hrun] at hfound
    cases hfound
  | ok p =>
    rw [hrun] at hfound
    have hvalues := Except.ok.inj hfound
    have hscan := congrArg (fun x => x.2.1) hvalues
    have hsearch := congrArg (fun x => x.2.2) hvalues
    have hagrees := h.after p hrun 63 (by decide)
    rw [show (p.scanWords hosted 63 (63 / hosted.width) (bucketCount / hosted.width)).map Prod.fst =
      none from hsearch, show (p.scanBuckets hosted 63 bucketCount).map Prod.fst = some 80 from
      hscan] at hagrees
    cases hagrees

end Pool

end Aoo
