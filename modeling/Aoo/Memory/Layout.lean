import Aoo.Lib.Arena
import Aoo.Lib.Run
import Aoo.Memory.Sizes

/-!
# The layout of the arena

The used part of the arena is cut into blocks. Each block is in one free list or is held by
somebody, and it is as long as its bucket says; a large one exactly so (`Laid`). Taking a block
out of its list, putting it back, cutting it and adding one at the end of the used part all
keep this, so every search for a block does (`Laid.findBlock`).
-/

namespace Aoo

open Lib

/-- A block of the arena, with the bucket it belongs to. -/
structure Block where
  bucket : Nat
  start : Nat
  length : Nat

namespace Block

def span (b : Block) : Span := ⟨b.start, b.length⟩

/-- The block is long enough for its bucket. -/
structure Sized (b : Block) : Prop where
  bucket : b.bucket < bucketCount
  length : bucketSizes b.bucket ≤ b.length
  exact : largeBucketOffset ≤ b.bucket → b.length = bucketSizes b.bucket

/-- The blocks of the given buckets, one after the other. -/
def pieces : Nat → List Nat → List Block
  | _, [] => []
  | o, i :: is => ⟨i, o, bucketSizes i⟩ :: pieces (o + bucketSizes i) is

/-- Pieces of an arena lie one behind the other. -/
theorem span_pieces (o : Nat) (is : List Nat) :
    (pieces o is).map span = consecutive o (is.map bucketSizes) := by
  induction is generalizing o with
  | nil => rfl
  | cons i is ih =>
    show span _ :: _ = _ :: _
    rw [ih]
    rfl

/-- Each has the size of its bucket. -/
theorem sized_pieces {o : Nat} {is : List Nat} (h : ∀ i ∈ is, i < bucketCount) {b : Block}
    (hb : b ∈ pieces o is) : b.Sized := by
  induction is generalizing o with
  | nil => exact absurd hb List.not_mem_nil
  | cons i is ih =>
    rcases List.mem_cons.mp hb with rfl | hb
    · exact ⟨h i List.mem_cons_self, Nat.le_refl _, fun _ => rfl⟩
    · exact ih (fun j hj => h j (List.mem_cons_of_mem _ hj)) hb

/-- Each starts at a multiple of 64. -/
theorem aligned_pieces {o : Nat} {is : List Nat} (h : ∀ i ∈ is, i < bucketCount) (ho : 64 ∣ o)
    {b : Block} (hb : b ∈ pieces o is) : 64 ∣ b.start := by
  induction is generalizing o with
  | nil => exact absurd hb List.not_mem_nil
  | cons i is ih =>
    rcases List.mem_cons.mp hb with rfl | hb
    · exact ho
    · exact ih (fun j hj => h j (List.mem_cons_of_mem _ hj))
        (Nat.dvd_add ho (dvd_bucketSizes i (h i List.mem_cons_self))) hb

end Block

namespace Pool

/-- The positions in a bucket. -/
def positions (free : List Block) (i : Nat) : List Nat :=
  (free.filter fun b => b.bucket = i).map Block.start

/-- The free lists hold the blocks `free`. -/
def Lists (c : PoolConfig) (p : Pool) (free : List Block) : Prop :=
  ∀ i, Chain (fun o => p.memory (p.data + o)) c.sentinel (p.buckets i) (positions free i)

/-- The used part of the arena is cut into the blocks `held` and `free`. -/
structure Laid (c : PoolConfig) (p : Pool) (held free : List Block) : Prop where
  used : p.index ≤ p.size
  whole : 64 ∣ p.index
  /-- Positions fit in the index. -/
  addressable : p.size ≤ c.sentinel + 1
  tiles : Tiles p.index ((held ++ free).map Block.span)
  sized : ∀ b ∈ held ++ free, b.Sized
  aligned : ∀ b ∈ held ++ free, 64 ∣ b.start
  lists : p.Lists c free

end Pool

/-- The sentinel fits into a list value. -/
theorem PoolConfig.sentinel_lt (c : PoolConfig) : c.sentinel < 2 ^ c.valueBits := by
  have hpos := Nat.two_pow_pos c.valueBits
  unfold PoolConfig.sentinel PoolConfig.valueMax
  omega

namespace Pool

variable {c : PoolConfig} {p p' : Pool} {held held' free free' : List Block} {b : Block}

/-- The same arena, whatever the free lists are. -/
structure SameArena (p p' : Pool) : Prop where
  data : p'.data = p.data
  size : p'.size = p.size
  index : p'.index = p.index

/-- The arena is the same over two steps. -/
theorem SameArena.trans {p'' : Pool} (h : SameArena p p') (h' : SameArena p' p'') :
    SameArena p p'' where
  data := h'.data.trans h.data
  size := h'.size.trans h.size
  index := h'.index.trans h.index

/-- A block that comes back changes no memory. -/
theorem sameArena_pushBlock (c : PoolConfig) (p : Pool) (ptr i : Nat) :
    SameArena p (p.pushBlock c ptr i) := by
  unfold pushBlock
  split
  · exact ⟨rfl, rfl, rfl⟩
  · exact ⟨rfl, rfl, rfl⟩

/-- Nor does one that is taken. -/
theorem sameArena_popBlock {i ptr : Nat} (h : p.popBlock c i = some (ptr, p')) :
    SameArena p p' := by
  unfold popBlock pop at h
  split at h
  next heq =>
    split at heq
    · cases heq
    · injection heq with heq
      injection h with h
      cases heq
      cases h
      split <;> exact ⟨rfl, rfl, rfl⟩
  next => cases h

/-- The bitset does not change the lists. -/
theorem lists_updateBitset (h : p.Lists c free) (index : Nat) :
    (p.updateBitset c index).Lists c free := h

/-- A free block is in its bucket. -/
theorem positions_cons_self (b : Block) (free : List Block) :
    positions (b :: free) b.bucket = b.start :: positions free b.bucket := by
  unfold positions
  rw [List.filter_cons_of_pos (by simp), List.map_cons]

/-- It is in no other bucket. -/
theorem positions_cons_of_ne {i : Nat} (h : b.bucket ≠ i) (free : List Block) :
    positions (b :: free) i = positions free i := by
  unfold positions
  rw [List.filter_cons_of_neg (by simpa using h)]

/-- What is in a bucket is a free block. -/
theorem mem_positions {i o : Nat} (h : o ∈ positions free i) : ∃ b ∈ free, b.start = o := by
  obtain ⟨b, hb, rfl⟩ := List.mem_map.mp h
  exact ⟨b, List.mem_of_mem_filter hb, rfl⟩

/-- A block that is in no list is put into one. -/
theorem Lists.push (h : p.Lists c free) (hlt : b.start < c.sentinel)
    (hnew : ∀ f ∈ free, f.start ≠ b.start) :
    (p.pushBlock c (p.data + b.start) b.bucket).Lists c (b :: free) := by
  have hpush : (p.push c (p.data + b.start) b.bucket).Lists c (b :: free) := by
    intro i
    have hmemory : (fun o => (p.push c (p.data + b.start) b.bucket).memory (p.data + o)) =
        Function.update (fun o => p.memory (p.data + o)) b.start (p.buckets b.bucket) := by
      funext o
      show Function.update p.memory (p.data + b.start) (p.buckets b.bucket) (p.data + o) = _
      by_cases ho : o = b.start
      · rw [ho, Function.update_self, Function.update_self]
      · rw [Function.update_of_ne ho, Function.update_of_ne (fun heq => ho (by omega))]
    have hout : ∀ j, b.start ∉ positions free j := by
      intro j hj
      obtain ⟨f, hf, heq⟩ := mem_positions hj
      exact hnew f hf heq
    show Chain (fun o => (p.push c (p.data + b.start) b.bucket).memory (p.data + o)) c.sentinel
      (Function.update p.buckets b.bucket ((p.data + b.start - p.data) % 2 ^ c.valueBits) i) _
    rw [hmemory]
    by_cases hi : i = b.bucket
    · subst hi
      have hposition : (p.data + b.start - p.data) % 2 ^ c.valueBits = b.start := by
        rw [Nat.add_sub_cancel_left]
        exact Nat.mod_eq_of_lt (Nat.lt_trans hlt c.sentinel_lt)
      rw [Function.update_self, hposition, positions_cons_self]
      exact (h b.bucket).push (Nat.ne_of_lt hlt) (hout b.bucket)
    · rw [Function.update_of_ne hi, positions_cons_of_ne (Ne.symm hi)]
      refine (h i).congr fun o ho => Function.update_of_ne ?_ _ _
      intro heq
      exact hout i (heq ▸ ho)
  unfold pushBlock
  split
  · exact lists_updateBitset hpush _
  · exact hpush

/-- The first block of a list is taken out. -/
theorem Lists.pop (h : p.Lists c free) (hlt : ∀ f ∈ free, f.start < c.sentinel) {i ptr : Nat}
    (hpop : p.popBlock c i = some (ptr, p')) :
    ∃ b free', b.bucket = i ∧ ptr = p.data + b.start ∧ free.Perm (b :: free') ∧
      p'.Lists c free' := by
  have hchain := h i
  cases hf : free.filter fun b => b.bucket = i with
  | nil =>
    -- Nothing is popped from an empty list.
    rw [positions, hf] at hchain
    have hend : p.buckets i = c.sentinel := hchain
    have hnone : p.popBlock c i = none := by
      unfold popBlock Pool.pop
      rw [if_pos hend]
    rw [hnone] at hpop
    cases hpop
  | cons b rest =>
    obtain ⟨l₁, l₂, rfl, hl₁, hb, hrest⟩ := List.filter_eq_cons_iff.mp hf
    have hbucket : b.bucket = i := of_decide_eq_true hb
    rw [positions, hf] at hchain
    obtain ⟨hhead, hne, htail⟩ := hchain
    have hposition : positions (l₁ ++ l₂) i = rest.map Block.start := by
      unfold positions
      rw [List.filter_append, List.filter_eq_nil_iff.mpr hl₁, hrest]
      rfl
    have hother : ∀ j, j ≠ i → positions (l₁ ++ l₂) j = positions (l₁ ++ b :: l₂) j := by
      intro j hj
      unfold positions
      rw [List.filter_append, List.filter_append, List.filter_cons_of_neg]
      simpa [hbucket] using Ne.symm hj
    have hstarts : ∀ o ∈ rest.map Block.start, o < c.sentinel := by
      intro o ho
      rw [← hposition] at ho
      obtain ⟨f, hf, rfl⟩ := mem_positions ho
      rcases List.mem_append.mp hf with hf | hf
      · exact hlt f (List.mem_append_left _ hf)
      · exact hlt f (List.mem_append_right _ (List.mem_cons_of_mem _ hf))
    have hnext : p.memory (p.data + b.start) % 2 ^ c.valueBits = p.memory (p.data + b.start) :=
      Nat.mod_eq_of_lt (Nat.lt_of_le_of_lt (htail.head_le hstarts) c.sentinel_lt)
    have hpopped : p.pop c i = some (p.data + b.start, { p with
        buckets := Function.update p.buckets i (p.memory (p.data + b.start)) }) := by
      unfold Pool.pop
      rw [hhead, if_neg hne]
      simp only [hnext]
    have hlists : ({ p with
        buckets := Function.update p.buckets i (p.memory (p.data + b.start)) } : Pool).Lists c
          (l₁ ++ l₂) := by
      intro j
      show Chain (fun o => p.memory (p.data + o)) c.sentinel
        (Function.update p.buckets i (p.memory (p.data + b.start)) j) _
      by_cases hj : j = i
      · rw [hj, Function.update_self, hposition]
        exact htail
      · rw [Function.update_of_ne hj, hother j hj]
        exact h j
    unfold popBlock at hpop
    rw [hpopped] at hpop
    injection hpop with hpop
    obtain ⟨hptr, hp'⟩ := Prod.mk.inj hpop
    refine ⟨b, l₁ ++ l₂, hbucket, hptr.symm, List.perm_middle, ?_⟩
    rw [← hp']
    split
    · exact lists_updateBitset hlists _
    · exact hlists

/-! ## What keeps the layout -/

/-- A position is smaller than the end marker. -/
theorem Laid.start_lt (h : Laid c p held free) (hb : b ∈ held ++ free) : b.start < c.sentinel := by
  have hused := h.used
  have haddressable := h.addressable
  have hinside : b.start + b.length ≤ p.index :=
    h.tiles.inside b.span (List.mem_map_of_mem hb)
  have hlength := (h.sized b hb).length
  have hmin := bucketSizes_ge b.bucket (h.sized b hb).bucket
  omega

/-- Only the arena and the lists matter, and the order of the blocks does not. -/
theorem Laid.congr (h : Laid c p held free) (hsame : SameArena p p')
    (hperm : (held ++ free).Perm (held' ++ free')) (hlists : p'.Lists c free') :
    Laid c p' held' free' where
  used := by rw [hsame.index, hsame.size]; exact h.used
  whole := by rw [hsame.index]; exact h.whole
  addressable := by rw [hsame.size]; exact h.addressable
  tiles := by rw [hsame.index]; exact h.tiles.perm (hperm.map _)
  sized := fun b hb => h.sized b (hperm.mem_iff.mpr hb)
  aligned := fun b hb => h.aligned b (hperm.mem_iff.mpr hb)
  lists := hlists

/-- A free block is taken. -/
theorem Laid.pop (h : Laid c p held free) {i ptr : Nat} (hpop : p.popBlock c i = some (ptr, p')) :
    ∃ b free', b.bucket = i ∧ ptr = p.data + b.start ∧ SameArena p p' ∧
      Laid c p' (b :: held) free' := by
  obtain ⟨b, free', hbucket, hptr, hperm, hlists⟩ :=
    h.lists.pop (fun f hf => h.start_lt (List.mem_append_right _ hf)) hpop
  have hsame := sameArena_popBlock hpop
  refine ⟨b, free', hbucket, hptr, hsame, h.congr hsame ?_ hlists⟩
  exact (hperm.append_left held).trans List.perm_middle

/-- A block that is held is put into the list of its bucket. -/
theorem Laid.push (h : Laid c p (b :: held) free) :
    Laid c (p.pushBlock c (p.data + b.start) b.bucket) held (b :: free) := by
  refine h.congr (sameArena_pushBlock c p _ _) List.perm_middle.symm ?_
  refine h.lists.push (h.start_lt List.mem_cons_self) fun f hf heq => ?_
  -- Another block does not start where this one does.
  have hmem : f ∈ held ++ free := List.mem_append_right _ hf
  have happart : b.span.Apart f.span :=
    (List.pairwise_cons.mp h.tiles.apart).1 f.span (List.mem_map_of_mem hmem)
  have hlength := (h.sized b List.mem_cons_self).length
  have hmin := bucketSizes_ge b.bucket (h.sized b List.mem_cons_self).bucket
  have hlength' := (h.sized f (List.mem_cons_of_mem b hmem)).length
  have hmin' := bucketSizes_ge f.bucket (h.sized f (List.mem_cons_of_mem b hmem)).bucket
  rcases happart with happart | happart
  · simp only [Block.span] at happart
    omega
  · simp only [Block.span] at happart
    omega

/-- A block that is held may be counted to another bucket it is long enough for. -/
theorem Laid.relabel (h : Laid c p (b :: held) free) {i : Nat}
    (hsized : (⟨i, b.start, b.length⟩ : Block).Sized) :
    Laid c p (⟨i, b.start, b.length⟩ :: held) free where
  used := h.used
  whole := h.whole
  addressable := h.addressable
  tiles := h.tiles
  sized := by
    intro a ha
    rcases List.mem_cons.mp ha with rfl | ha
    · exact hsized
    · exact h.sized a (List.mem_cons_of_mem _ ha)
  aligned := by
    intro a ha
    rcases List.mem_cons.mp ha with rfl | ha
    · exact h.aligned b List.mem_cons_self
    · exact h.aligned a (List.mem_cons_of_mem _ ha)
  lists := h.lists

/-- A block that is held is cut into pieces for the given buckets. -/
theorem Laid.cut (h : Laid c p (b :: held) free) {i : Nat} {is : List Nat} (hi : i < bucketCount)
    (his : ∀ k ∈ is, k < bucketCount)
    (hlength : b.length = bucketSizes i + (is.map bucketSizes).sum) :
    Laid c p (⟨i, b.start, bucketSizes i⟩ ::
      (Block.pieces (b.start + bucketSizes i) is ++ held)) free where
  used := h.used
  whole := h.whole
  addressable := h.addressable
  tiles := by
    have htiles : Tiles p.index (⟨b.start, bucketSizes i + (is.map bucketSizes).sum⟩ ::
        (held ++ free).map Block.span) := hlength ▸ h.tiles
    have hcuts := htiles.cuts
    rw [← Block.span_pieces, ← List.map_append, ← List.append_assoc] at hcuts
    exact hcuts
  sized := by
    intro a ha
    rw [List.cons_append, List.append_assoc] at ha
    rcases List.mem_cons.mp ha with rfl | ha
    · exact ⟨hi, Nat.le_refl _, fun _ => rfl⟩
    rcases List.mem_append.mp ha with ha | ha
    · exact Block.sized_pieces his ha
    · exact h.sized a (List.mem_cons_of_mem _ ha)
  aligned := by
    have hb := h.aligned b List.mem_cons_self
    intro a ha
    rw [List.cons_append, List.append_assoc] at ha
    rcases List.mem_cons.mp ha with rfl | ha
    · exact hb
    rcases List.mem_append.mp ha with ha | ha
    · exact Block.aligned_pieces his (Nat.dvd_add hb (dvd_bucketSizes i hi)) ha
    · exact h.aligned a (List.mem_cons_of_mem _ ha)
  lists := h.lists

/-- Pieces that are held are put into their lists. -/
theorem Laid.pushAll {o : Nat} {is : List Nat} (h : Laid c p (Block.pieces o is ++ held) free) :
    ∃ free', SameArena p (p.pushAll c (p.data + o) is) ∧
      Laid c (p.pushAll c (p.data + o) is) held free' := by
  induction is generalizing p o free with
  | nil => exact ⟨free, ⟨rfl, rfl, rfl⟩, h⟩
  | cons i is ih =>
    have hsame := sameArena_pushBlock c p (p.data + o) i
    obtain ⟨free', hsame', hlaid⟩ := ih h.push
    rw [hsame.data, ← Nat.add_assoc] at hsame' hlaid
    exact ⟨free', hsame.trans hsame', hlaid⟩

/-- A new block is cut off the unused part. -/
theorem Laid.extend (h : Laid c p held free) {i : Nat} (hi : i < bucketCount)
    (hroom : bucketSizes i ≤ p.size - p.index) :
    Laid c { p with index := p.index + bucketSizes i } (⟨i, p.index, bucketSizes i⟩ :: held)
      free where
  used := by
    have hused := h.used
    show p.index + bucketSizes i ≤ p.size
    omega
  whole := Nat.dvd_add h.whole (dvd_bucketSizes i hi)
  addressable := h.addressable
  tiles := h.tiles.extend (bucketSizes i)
  sized := by
    intro a ha
    rcases List.mem_cons.mp ha with rfl | ha
    · exact ⟨hi, Nat.le_refl _, fun _ => rfl⟩
    · exact h.sized a ha
  aligned := by
    intro a ha
    rcases List.mem_cons.mp ha with rfl | ha
    · exact h.whole
    · exact h.aligned a ha
  lists := h.lists

/-! ## Searching -/

/-- A search in a word finds a block of a larger bucket. -/
theorem scanBits_some {start k bits n : Nat} {x : Found}
    (h : p.scanBits c start k bits n = some (some x)) :
    start < x.1 ∧ p.popBlock c x.1 = some x.2 := by
  induction n with
  | zero => cases h
  | succ n ih =>
    rw [scanBits] at h
    split at h
    case isFalse => exact ih h
    case isTrue =>
      simp only [] at h
      split at h
      case isFalse => cases h
      case isTrue hlt =>
        split at h
        next ptr p' hpop =>
          injection h with h
          injection h with h
          subst h
          exact ⟨hlt, hpop⟩
        next => exact ih h

/-- So does a search in all words. -/
theorem scanWords_some {start offset n : Nat} {x : Found}
    (h : p.scanWords c start offset n = some x) :
    start < x.1 ∧ p.popBlock c x.1 = some x.2 := by
  induction n with
  | zero => cases h
  | succ n ih =>
    rw [scanWords] at h
    split at h
    · cases h
    split at h
    · exact ih h
    split at h
    next result heq =>
      subst h
      exact scanBits_some heq
    next => exact ih h

/-- So does a search without bits. -/
theorem scanBuckets_some {start n : Nat} {x : Found} (h : p.scanBuckets c start n = some x) :
    start < x.1 ∧ p.popBlock c x.1 = some x.2 := by
  induction n with
  | zero => cases h
  | succ n ih =>
    rw [scanBuckets] at h
    split at h
    case isFalse => cases h
    case isTrue hlt =>
      split at h
      next ptr p' hpop =>
        injection h with h
        subst h
        exact ⟨hlt, hpop⟩
      next => exact ih h

/-- What a search leaves: a block of the bucket, or everything as it was. -/
def Served (c : PoolConfig) (p : Pool) (held : List Block) (i : Nat) :
    Pool × Option Nat → Prop
  | (p', some ptr) => ∃ b free', b.bucket = i ∧ ptr = p.data + b.start ∧ p'.data = p.data ∧
      p'.size = p.size ∧ Laid c p' (b :: held) free'
  | (p', none) => p' = p

/-- The search gives a free block, or none. -/
theorem Laid.findMatchingBlock (h : Laid c p held free) {i : Nat} (hi : i < bucketCount) :
    ∃ r, p.findMatchingBlock c i = .ok r ∧ Served c p held i r := by
  unfold Pool.findMatchingBlock
  simp only []
  generalize hfound : (if c.useBitset then p.scanWords c i (i / c.width) (bucketCount / c.width)
    else p.scanBuckets c i bucketCount) = found
  cases found with
  | none => exact ⟨(p, none), rfl, rfl⟩
  | some x =>
    have hx : i < x.1 ∧ p.popBlock c x.1 = some x.2 := by
      split at hfound
      · exact scanWords_some hfound
      · exact scanBuckets_some hfound
    obtain ⟨k, ptr, p'⟩ := x
    obtain ⟨hlt, hpop⟩ := hx
    obtain ⟨b, free', rfl, hptr, hsame, hlaid⟩ := h.pop hpop
    have hsized := hlaid.sized b List.mem_cons_self
    simp only []
    by_cases hlarge : largeBucketOffset ≤ b.bucket
    · -- A large block is split.
      obtain ⟨is, his, hsum, heq⟩ := splitBlock_eq c p' ptr hsized.bucket hlt
      have hcut := hlaid.cut hi his ((hsized.exact hlarge).trans hsum.symm)
      have hpieces := hcut.congr ⟨rfl, rfl, rfl⟩ (List.perm_middle.symm.append_right free') hcut.lists
      obtain ⟨free'', hsame', hlaid'⟩ := hpieces.pushAll
      rw [hsame.data, ← Nat.add_assoc, ← hptr] at hsame' hlaid'
      rw [if_pos hlarge, heq]
      refine ⟨(p'.pushAll c (ptr + bucketSizes i) is, some ptr), rfl,
        ⟨i, b.start, bucketSizes i⟩, free'', rfl, hptr, ?_, ?_, hlaid'⟩
      · exact hsame'.data.trans hsame.data
      · exact hsame'.size.trans hsame.size
    · -- A small block is handed out as it is.
      rw [if_neg hlarge]
      refine ⟨(p', some ptr), rfl, ⟨i, b.start, b.length⟩, free', rfl, hptr, hsame.data, hsame.size,
        hlaid.relabel ?_⟩
      have hsmaller := bucketSizes_lt hsized.bucket hlt
      have hlength := hsized.length
      exact ⟨hi, by simp only []; omega, fun hle => absurd hle (by simp only []; omega)⟩

/-- So does the search that begins with the right bucket. -/
theorem Laid.findBlock (h : Laid c p held free) {size i : Nat} (hindex : sizeToIndex size = .ok i)
    (hi : i < bucketCount) :
    ∃ r, p.findBlock c size = .ok r ∧ Served c p held i r := by
  unfold Pool.findBlock
  rw [hindex]
  show ∃ r, (check (i < bucketCount) >>= fun _ => _) = .ok r ∧ _
  rw [check, if_pos hi]
  simp only [bind, Except.bind]
  cases hpop : p.popBlock c i with
  | none => exact h.findMatchingBlock hi
  | some x =>
    obtain ⟨ptr, p'⟩ := x
    obtain ⟨b, free', rfl, hptr, hsame, hlaid⟩ := h.pop hpop
    exact ⟨(p', some ptr), rfl, b, free', rfl, hptr, hsame.data, hsame.size, hlaid⟩

end Pool

end Aoo
