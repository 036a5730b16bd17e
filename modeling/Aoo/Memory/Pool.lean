import Mathlib.Algebra.Ring.Nat
import Mathlib.Data.Nat.Log
import Mathlib.Logic.Function.Basic

/-!
# The real-time memory pool

`rt_memory_pool` hands out blocks of a fixed arena. A request is served from the free list of its
bucket, from a larger free block, or from the unused end of the arena, and otherwise by the default
allocator. A free block holds the position of the next one in its first bytes, so the free lists
live in the arena itself: `memory` is the word at each address.

Positions are stored in a tagged index. The tag only guards against concurrent
modifications, and is left out: calls are made one after the other here.
-/

namespace Aoo

/-- An `assert` does not hold. -/
inductive AssertionFailure
  | failed
  deriving DecidableEq, Repr

/-- What is computed under assertions. -/
abbrev Checked := Except AssertionFailure

/-- `assert`. -/
def check (p : Prop) [Decidable p] : Checked Unit :=
  if p then .ok () else .error .failed

def blockAlignment : Nat := 64
def bucketCount : Nat := 128
def largeBucketOffset : Nat := 64
def smallAllocLimit : Nat := 4096
def smallAllocLimitBits : Nat := 12
def largeAllocLimit : Nat := 65535

/-- How the pool is built. -/
structure PoolConfig where
  /-- The template parameter `grow`. -/
  grow : Bool
  /-- `AOO_RT_MEMORY_POOL_BITSET`. -/
  useBitset : Bool
  /-- `tagged_index` has 64 bits and not 32. -/
  wideIndex : Bool
  /-- `bitset` has 32 bits and not 16. -/
  wideBitset : Bool
  /-- `size_t` has 64 bits and not 32. -/
  wideSize : Bool
  deriving DecidableEq, Repr

namespace PoolConfig

/-- `tagged_index::value_bits`: the tag has 16 bits. -/
def valueBits (c : PoolConfig) : Nat := if c.wideIndex then 48 else 16

/-- `tagged_index::value_max`. -/
def valueMax (c : PoolConfig) : Nat := 2 ^ c.valueBits - 1

/-- `SIZE_MAX`. -/
def sizeMax (c : PoolConfig) : Nat := if c.wideSize then 2 ^ 64 - 1 else 2 ^ 32 - 1

/-- `free_list::sentinel`. -/
def sentinel (c : PoolConfig) : Nat := min c.valueMax c.sizeMax

/-- `rt_memory_pool::max_pool_size`. -/
def maxPoolSize (c : PoolConfig) : Nat := min (c.valueMax * blockAlignment) c.sizeMax

/-- `bitset::width`. -/
def width (c : PoolConfig) : Nat := if c.wideBitset then 32 else 16

end PoolConfig

/-! ## Sizes -/

/-- `bucket_sizes_`, as the constructor fills it. The mask is `~(step - 1)`. -/
def bucketSizes (i : Nat) : Nat :=
  if largeBucketOffset ≤ i then
    let pow2 := 1 <<< ((i - largeBucketOffset) / 16 + smallAllocLimitBits)
    let rem := ((i - largeBucketOffset) % 16) * pow2 / 16
    let step := pow2 >>> 4
    pow2 + ((rem + step) &&& (2 ^ 64 - step))
  else
    (i + 1) * blockAlignment

theorem bucketSizes_pos (i : Nat) : 0 < bucketSizes i := by
  unfold bucketSizes blockAlignment
  split
  · apply Nat.add_pos_left
    rw [Nat.shiftLeft_eq, Nat.one_mul]
    exact Nat.two_pow_pos _
  · omega

/-- `rt_memory_pool::size_to_index`. The constant `k` is negative and wraps around, and the
sum is positive again. -/
def sizeToIndex (size : Nat) : Checked Nat :=
  if smallAllocLimit < size then do
    let ilog2 := Nat.log2 size
    let index := (ilog2 <<< 4) + ((size >>> (ilog2 - 4)) &&& 15) + largeBucketOffset -
      smallAllocLimitBits * 16
    check (64 ≤ index ∧ index < 128)
    return index
  else
    return (size - 1) / blockAlignment

/-- `rt_memory_pool::get_alloc_size`. -/
def getAllocSize (size : Nat) : Checked Nat :=
  if smallAllocLimit < size then do
    let index ← sizeToIndex size
    return bucketSizes index
  else
    return (size + blockAlignment - 1) &&& (2 ^ 64 - blockAlignment)

/-! ## The state -/

/-- The state of a pool and the memory it manages. -/
structure Pool where
  /-- `linear_allocator_.data_`, the address of the arena. -/
  data : Nat
  /-- `linear_allocator_.size_`. -/
  size : Nat
  /-- `linear_allocator_.index_`, the end of the used part. -/
  index : Nat
  /-- `buckets_`, the heads of the free lists. -/
  buckets : Nat → Nat
  /-- `bitset_`, the bits of each word. -/
  bitset : Nat → Nat
  /-- The word at each address. -/
  memory : Nat → Nat

namespace Pool

/-- `rt_memory_pool::resize` of a new pool: the memory of the arena is at address `memory`, and its
contents are unknown. -/
def resize (c : PoolConfig) (size memory : Nat) (contents : Nat → Nat) : Pool where
  data := (memory + 4096 - 1) / 4096 * 4096
  size := min size c.maxPoolSize
  index := 0
  buckets := fun _ => c.sentinel
  bitset := fun _ => 0
  memory := contents

/-- `concurrent_linear_allocator::contains`. -/
def contains (p : Pool) (ptr : Nat) : Bool :=
  p.data ≤ ptr ∧ ptr < p.data + p.size

/-- `concurrent_linear_allocator::allocate`. -/
def linearAllocate (p : Pool) (size : Nat) : Pool × Option Nat :=
  if size ≤ p.size - p.index then ({ p with index := p.index + size }, some (p.data + p.index))
  else (p, none)

/-- `free_list::push` for a bucket. The position is cut to the bits of the index. -/
def push (c : PoolConfig) (p : Pool) (ptr i : Nat) : Pool :=
  { p with
    memory := Function.update p.memory ptr (p.buckets i)
    buckets := Function.update p.buckets i ((ptr - p.data) % 2 ^ c.valueBits) }

/-- `free_list::pop` for a bucket. -/
def pop (c : PoolConfig) (p : Pool) (i : Nat) : Option (Nat × Pool) :=
  if p.buckets i = c.sentinel then none
  else
    let block := p.data + p.buckets i
    some (block, { p with
      buckets := Function.update p.buckets i (p.memory block % 2 ^ c.valueBits) })

/-- `free_list::empty`. -/
def empty (c : PoolConfig) (p : Pool) (i : Nat) : Bool :=
  p.buckets i ≠ c.sentinel

/-- `tagged_bitset::set`. -/
def setBit (bits i : Nat) (state : Bool) : Nat :=
  if state then bits ||| (1 <<< i) else bits ^^^ (bits &&& (1 <<< i))

/-- `rt_memory_pool::update_bitset`. -/
def updateBitset (c : PoolConfig) (p : Pool) (index : Nat) : Pool :=
  let k := index / c.width
  let i := index &&& (c.width - 1)
  { p with bitset := Function.update p.bitset k (setBit (p.bitset k) i (!p.empty c index)) }

/-- `rt_memory_pool::push_block`. -/
def pushBlock (c : PoolConfig) (p : Pool) (ptr index : Nat) : Pool :=
  let p := p.push c ptr index
  if c.useBitset then p.updateBitset c index else p

/-- `rt_memory_pool::pop_block`. -/
def popBlock (c : PoolConfig) (p : Pool) (index : Nat) : Option (Nat × Pool) :=
  match p.pop c index with
  | some (ptr, p) => some (ptr, if c.useBitset then p.updateBitset c index else p)
  | none => none

/-! ## Searching and splitting -/

/-- A block that was found: its bucket, its address, and the pool without it. -/
abbrev Found := Nat × Nat × Pool

/-- `find_matching_block`, the loop over the bits below `i` of word `k`. The result is the one that
the function returns, if it returns here. -/
def scanBits (c : PoolConfig) (p : Pool) (start k bits : Nat) : Nat → Option (Option Found)
  | 0 => none
  | i + 1 =>
    if bits.testBit i then
      let blockIndex := k * c.width + i
      if start < blockIndex then
        match p.popBlock c blockIndex with
        | some (ptr, p) => some (some (blockIndex, ptr, p))
        | none => scanBits c p start k bits i
      else some none
    else scanBits c p start k bits i

/-- `find_matching_block`, the loop over the words below `k` and from `offset` on. -/
def scanWords (c : PoolConfig) (p : Pool) (start offset : Nat) : Nat → Option Found
  | 0 => none
  | k + 1 =>
    if k < offset then none
    else if p.bitset k = 0 then scanWords c p start offset k
    else
      match scanBits c p start k (p.bitset k) (Nat.log2 (p.bitset k) + 1) with
      | some result => result
      | none => scanWords c p start offset k

/-- `find_matching_block` without the bitset, the buckets below `i`. -/
def scanBuckets (c : PoolConfig) (p : Pool) (start : Nat) : Nat → Option Found
  | 0 => none
  | i + 1 =>
    if start < i then
      match p.popBlock c i with
      | some (ptr, p) => some (i, ptr, p)
      | none => scanBuckets c p start i
    else none

/-- `split_block`, the loop. -/
def splitLoop (c : PoolConfig) (p : Pool) (memPtr memSize : Nat) : Checked Pool :=
  if memSize = 0 then .ok p
  else
    match sizeToIndex memSize with
    | .error e => .error e
    | .ok index =>
      if largeBucketOffset ≤ index then
        let index := index - 1
        let p := p.pushBlock c memPtr index
        let blockSize := bucketSizes index
        if blockSize ≤ memSize then splitLoop c p (memPtr + blockSize) (memSize - blockSize)
        else .error .failed
      else if bucketSizes index = memSize then .ok (p.pushBlock c memPtr index)
      else .error .failed
termination_by memSize
decreasing_by
  exact Nat.sub_lt (Nat.pos_of_ne_zero ‹_›) (bucketSizes_pos _)

/-- `rt_memory_pool::split_block`. -/
def splitBlock (c : PoolConfig) (p : Pool) (ptr blockIndex startIndex : Nat) : Checked Pool :=
  let allocSize := bucketSizes startIndex
  p.splitLoop c (ptr + allocSize) (bucketSizes blockIndex - allocSize)

/-- `rt_memory_pool::find_matching_block`. -/
def findMatchingBlock (c : PoolConfig) (p : Pool) (start : Nat) : Checked (Pool × Option Nat) :=
  let found :=
    if c.useBitset then p.scanWords c start (start / c.width) (bucketCount / c.width)
    else p.scanBuckets c start bucketCount
  match found with
  | none => .ok (p, none)
  | some (blockIndex, ptr, p) => do
    let p ← if largeBucketOffset ≤ blockIndex then p.splitBlock c ptr blockIndex start else .ok p
    return (p, some ptr)

/-- `rt_memory_pool::find_block`. -/
def findBlock (c : PoolConfig) (p : Pool) (size : Nat) : Checked (Pool × Option Nat) := do
  let index ← sizeToIndex size
  check (index < bucketCount)
  match p.popBlock c index with
  | some (ptr, p) => return (p, some ptr)
  | none => p.findMatchingBlock c index

/-! ## The calls -/

/-- `rt_memory_pool::allocate`, what the arena has for a size. -/
def allocateBlock (c : PoolConfig) (p : Pool) (size : Nat) : Checked (Pool × Option Nat) := do
  match ← p.findBlock c size with
  | (p, some ptr) => return (p, some ptr)
  | (p, none) =>
    let allocSize ← getAllocSize size
    return p.linearAllocate allocSize

/-- `rt_memory_pool::allocate`, where `heap` is what the default allocator returns if it is
asked. -/
def allocate (c : PoolConfig) (p : Pool) (size : Nat) (heap : Option Nat) :
    Checked (Pool × Option Nat) :=
  if largeAllocLimit < size then .ok (p, heap)
  else if 0 < size then do
    let (p, ptr) ← p.allocateBlock c size
    return (p, if c.grow && ptr.isNone then heap else ptr)
  else .ok (p, none)

/-- `rt_memory_pool::return_block`. -/
def returnBlock (c : PoolConfig) (p : Pool) (ptr size : Nat) : Checked Pool := do
  let index ← sizeToIndex size
  check (index < bucketCount)
  check (index < p.size)
  return p.pushBlock c ptr index

/-- `rt_memory_pool::deallocate`. -/
def deallocate (c : PoolConfig) (p : Pool) (ptr size : Nat) : Checked Pool :=
  if largeAllocLimit < size then .ok p
  else if 0 < size then do
    check (ptr ≠ 0)
    if c.grow && !p.contains ptr then return p
    else p.returnBlock c ptr size
  else .ok p

end Pool

end Aoo
