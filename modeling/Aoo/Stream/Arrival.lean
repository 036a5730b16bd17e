import Aoo.Stream.Sink

/-!
# Packets in the jitter buffer

`JitterBuffer.Strong` is the invariant of the jitter buffer: the blocks of the
ring have consecutive numbers up to `lastPushed`, and `lastPopped` is the number
in front of them or the sentinel. Each operation has one lemma about it.
`Adds` says once what `add_packet` can do to the ring (`addPacket_adds`); what
is shown of packets later starts from there.

The distance of a packet from the newest block is an `int32_t`. It does not
overflow as long as streams start with a number that is not negative.
-/

namespace Aoo.Stream

open Lib

namespace JitterBuffer

/-- The invariant, with the blocks of the ring and the free slots. -/
structure Strong (b : JitterBuffer) (bs fs : List ReceivedBlock) : Prop where
  ring : b.Ring bs fs
  sequence : ∀ i (hi : i < bs.length), bs[i].sequence = b.lastPushed - bs.length + 1 + i
  pushed : (b.lastPushed = sentinel ∧ bs = [] ∧ b.lastPopped = sentinel) ∨
    (b.lastPushed = 2147483647 ∧ bs = [] ∧ b.lastPopped = sentinel) ∨
    (-1 ≤ b.lastPushed - bs.length ∧ b.lastPushed ≤ 2147483646)
  popped : b.lastPopped = sentinel ∨ b.lastPopped = b.lastPushed - bs.length

section

variable {b : JitterBuffer} {bs fs : List ReceivedBlock}

theorem strong_reset (hcap : 0 < b.capacity) : b.reset.Strong [] (b.data.map (·.clear)) :=
  ⟨ring_reset hcap, fun i hi => absurd hi (Nat.not_lt_zero i), Or.inl ⟨rfl, rfl, rfl⟩, Or.inl rfl⟩

theorem capacity_resize (b : JitterBuffer) (n : Nat) (spare : List ReceivedBlock) :
    (b.resize n spare).capacity = n := by
  simp only [resize, capacity, List.length_append, List.length_take, List.length_replicate]
  omega

/-- A new buffer is empty, and all of its slots are clear. -/
theorem strong_resize {n : Nat} (hn : 0 < n) (spare : List ReceivedBlock) :
    ∃ fs, (b.resize n spare).Strong [] fs ∧ ∀ x ∈ fs, x.numFrames = 0 ∧ x.receivedFrames = 0 := by
  refine ⟨(b.resize n spare).data, ⟨⟨⟨Nat.le_refl _, ?_, fun i hi => ?_⟩, ?_, rfl, ?_⟩,
    fun i hi => absurd hi (Nat.not_lt_zero i), Or.inl ⟨rfl, rfl, rfl⟩, Or.inl rfl⟩, fun x hx => ?_⟩
  · show 0 < (b.resize n spare).capacity
    rw [capacity_resize]
    exact hn
  · show (b.resize n spare).data[(0 + i) % (b.resize n spare).data.length]? = _
    rw [List.nil_append] at hi ⊢
    rw [Nat.zero_add, Nat.mod_eq_of_lt hi]
  · exact Nat.zero_add _
  · exact (Nat.zero_mod _).symm
  · rcases List.mem_append.mp hx with hx | hx
    · obtain ⟨y, -, rfl⟩ := List.mem_map.mp (List.mem_of_mem_take hx)
      refine ⟨?_, rfl⟩
      unfold ReceivedBlock.clear ReceivedBlock.numFrames DataFrameStorage.clear
      simp only
      split <;> rfl
    · rw [List.eq_of_mem_replicate hx]
      exact ⟨rfl, rfl⟩

/-- The numbers of the blocks lie behind the number popped last. -/
theorem Strong.between (h : b.Strong bs fs) {x : ReceivedBlock} (hx : x ∈ bs) :
    b.lastPushed - bs.length < x.sequence ∧ x.sequence ≤ b.lastPushed := by
  obtain ⟨i, hi, rfl⟩ := List.getElem_of_mem hx
  rw [h.sequence i hi]
  omega

/-- They are numbers of a stream. -/
theorem Strong.range (h : b.Strong bs fs) {x : ReceivedBlock} (hx : x ∈ bs) :
    0 ≤ x.sequence ∧ x.sequence ≤ 2147483646 := by
  have hbetween := h.between hx
  rcases h.pushed with ⟨-, rfl, -⟩ | ⟨-, rfl, -⟩ | hpushed
  · cases hx
  · cases hx
  · omega

theorem Strong.resetHead (h : b.Strong [] fs) (hp : b.lastPopped = sentinel) {seq : Int}
    (hseq : seq = sentinel ∨ (-1 ≤ seq ∧ seq ≤ 2147483647)) : (b.resetHead seq).Strong [] fs := by
  refine ⟨⟨h.ring.holds, h.ring.total, h.ring.size, h.ring.head⟩,
    fun i hi => absurd hi (Nat.not_lt_zero i), ?_, Or.inl hp⟩
  rcases hseq with hseq | hseq
  · exact Or.inl ⟨hseq, rfl, hp⟩
  · by_cases hmax : seq = 2147483647
    · exact Or.inr (Or.inl ⟨hmax, rfl, hp⟩)
    · refine Or.inr (Or.inr ⟨?_, ?_⟩)
      · show -1 ≤ seq - (0 : Nat)
        omega
      · show seq ≤ 2147483646
        omega

/-- A number may be pushed if the ring is not full and it is the next one. -/
theorem Strong.emplace {x : ReceivedBlock} (h : b.Strong bs (x :: fs)) {seq : Int}
    (hrange : 0 ≤ seq ∧ seq ≤ 2147483646)
    (hnext : b.lastPushed = sentinel ∨ seq - b.lastPushed = 1)
    {f : ReceivedBlock → ReceivedBlock} (hf : (f x).sequence = seq) :
    (b.emplace seq f).Strong (bs ++ [f x]) fs := by
  have hpushed : (b.emplace seq f).lastPushed = seq := by
    unfold JitterBuffer.emplace JitterBuffer.modify
    split <;> rfl
  have hpopped : (b.emplace seq f).lastPopped = b.lastPopped := by
    unfold JitterBuffer.emplace JitterBuffer.modify
    split <;> rfl
  have hlen : ((bs ++ [f x]).length : Int) = bs.length + 1 := by simp
  -- after the sentinel the ring is empty
  have hempty : b.lastPushed = sentinel → bs = [] ∧ b.lastPopped = sentinel := by
    intro hs
    rcases h.pushed with hc | hc | hc
    · exact hc.2
    · exact hc.2
    · have := hc.1
      unfold sentinel at hs
      omega
  refine ⟨h.ring.emplace seq f, fun i hi => ?_, Or.inr (Or.inr ⟨?_, ?_⟩), ?_⟩
  · rw [hpushed, hlen]
    by_cases hlast : i < bs.length
    · rw [List.getElem_append_left hlast, h.sequence i hlast]
      rcases hnext with hs | hn
      · rw [(hempty hs).1] at hlast
        exact absurd hlast (Nat.not_lt_zero i)
      · omega
    · have hi' : i = bs.length := by
        rw [List.length_append, List.length_singleton] at hi
        omega
      subst hi'
      rw [List.getElem_append_right (Nat.le_refl _)]
      simp only [Nat.sub_self, List.getElem_singleton, hf]
      omega
  · rw [hpushed, hlen]
    rcases hnext with hs | hn
    · rw [(hempty hs).1]
      simp only [List.length_nil]
      omega
    · rcases h.pushed with hc | hc | hc
      · rw [hc.2.1]
        simp only [List.length_nil]
        omega
      · omega
      · omega
  · rw [hpushed]
    exact hrange.2
  · rw [hpushed, hpopped, hlen]
    rcases hnext with hs | hn
    · exact Or.inl (hempty hs).2
    · refine h.popped.imp_right fun hp => ?_
      omega

theorem Strong.pop {x : ReceivedBlock} (h : b.Strong (x :: bs) fs) :
    b.pop.Strong bs (fs ++ [x.clear]) := by
  have hfront : b.pop.lastPopped = x.sequence := congrArg (·.sequence) h.ring.front_eq
  have hseq := h.sequence 0 (by simp)
  simp only [List.getElem_cons_zero, List.length_cons, Nat.cast_zero] at hseq
  have hbound : -1 ≤ b.lastPushed - ((x :: bs).length : Int) ∧ b.lastPushed ≤ 2147483646 := by
    rcases h.pushed with hc | hc | hc
    · cases hc.2.1
    · cases hc.2.1
    · exact hc
  rw [List.length_cons] at hbound
  refine ⟨h.ring.pop, fun i hi => ?_, Or.inr (Or.inr ⟨?_, hbound.2⟩), Or.inr ?_⟩
  · have := h.sequence (i + 1) (by simpa using hi)
    simp only [List.getElem_cons_succ, List.length_cons] at this
    rw [this]
    show b.lastPushed - _ + 1 + _ = b.lastPushed - _ + 1 + _
    push_cast
    omega
  · show -1 ≤ b.lastPushed - bs.length
    omega
  · rw [hfront, hseq]
    show _ = b.lastPushed - bs.length
    push_cast
    omega

theorem Strong.advanceMissing (h : b.Strong [] fs) : b.advanceMissing.Strong [] fs := by
  unfold JitterBuffer.advanceMissing
  split
  next hne =>
    have hp := h.popped.resolve_left hne
    have hbound : -1 ≤ b.lastPushed - (([] : List ReceivedBlock).length : Int) ∧
        b.lastPushed ≤ 2147483646 := by
      rcases h.pushed with hc | hc | hc
      · exact absurd hc.2.2 hne
      · exact absurd hc.2.2 hne
      · exact hc
    simp only [List.length_nil] at hp hbound
    refine ⟨⟨h.ring.holds, h.ring.total, h.ring.size, h.ring.head⟩,
      fun i hi => absurd hi (Nat.not_lt_zero i), Or.inr (Or.inr ?_), Or.inr ?_⟩
    · simp only [List.length_nil]
      split <;> omega
    · simp only [List.length_nil]
      omega
  next => exact h

theorem modify_counters (b : JitterBuffer) (j : Nat) (f : ReceivedBlock → ReceivedBlock) :
    (b.modify j f).lastPushed = b.lastPushed ∧ (b.modify j f).lastPopped = b.lastPopped := by
  unfold JitterBuffer.modify
  split <;> exact ⟨rfl, rfl⟩

/-- A block keeps its number when it is changed. -/
theorem Strong.modify (h : b.Strong bs fs) {i : Nat} (hi : i < bs.length)
    {f : ReceivedBlock → ReceivedBlock} (hf : (f bs[i]).sequence = bs[i].sequence) :
    (b.modify ((b.tail + i) % b.capacity) f).Strong (bs.set i (f bs[i])) fs := by
  obtain ⟨hpushed, hpopped⟩ := b.modify_counters ((b.tail + i) % b.capacity) f
  have hnil : bs ≠ [] := fun hc => by
    rw [hc] at hi
    exact absurd hi (Nat.not_lt_zero i)
  refine ⟨h.ring.modify hi f, fun j hj => ?_, ?_, ?_⟩
  · rw [List.length_set] at hj ⊢
    rw [hpushed, ← h.sequence j hj, List.getElem_set]
    split
    next heq =>
      subst heq
      exact hf
    next => rfl
  · rw [hpushed, hpopped, List.length_set]
    rcases h.pushed with hc | hc | hc
    · exact absurd hc.2.1 hnil
    · exact absurd hc.2.1 hnil
    · exact Or.inr (Or.inr hc)
  · rw [hpushed, hpopped, List.length_set]
    exact h.popped

theorem Strong.modify_spare (h : b.Strong bs fs) {j : Nat} (hj : b.capacity ≤ j)
    (f : ReceivedBlock → ReceivedBlock) : (b.modify j f).Strong bs fs := by
  obtain ⟨hpushed, hpopped⟩ := b.modify_counters j f
  refine ⟨h.ring.modify_spare hj f, ?_, ?_, ?_⟩
  · rw [hpushed]
    exact h.sequence
  · rw [hpushed, hpopped]
    exact h.pushed
  · rw [hpushed, hpopped]
    exact h.popped

end

end JitterBuffer

/-! ## Packets -/

/-- A push that the buffer allows: it is not full, and the number is the next
one. -/
def Call.GoodPush (c : Call) : Prop :=
  ∃ lastPushed seq, c = .push false lastPushed seq ∧
    (lastPushed = JitterBuffer.sentinel ∨ seq - lastPushed = 1)

/-- A slot that was free, or has been cleared. -/
def Fresh (fs : List ReceivedBlock) (x : ReceivedBlock) : Prop :=
  x ∈ fs ∨ ∃ y : ReceivedBlock, x = y.clear

/-- The frame of a packet goes to the block. -/
def ReceivedBlock.take (b : ReceivedBlock) (d : NetPacket) : ReceivedBlock :=
  if d.data.length > 0 then b.addFrame d.frameIndex d.data else b

/-- The call of `add_frame` for a block with `n` frames. -/
def frameCalls (d : NetPacket) (n : Int) : List Call :=
  if d.data.length > 0 then [.addFrame d.frameIndex n] else []

/-- A new block behind the others, or instead of them, and placeholders for those
that are missing in between. -/
inductive Appends (bs fs : List ReceivedBlock) (d : NetPacket) :
    List ReceivedBlock → List ReceivedBlock → List Call → Prop
  | mk (bs₀ ps : List ReceivedBlock) (x : ReceivedBlock) (fs' : List ReceivedBlock)
      (cs : List Call) (hold : bs₀ = bs ∨ bs₀ = [])
      (hps : ∀ p ∈ ps, ∃ y seq, Fresh fs y ∧ p = ReceivedBlock.initPlaceholder y seq)
      (hx : Fresh fs x) (hfs : ∀ y ∈ fs', Fresh fs y) (hcs : ∀ c ∈ cs, c.GoodPush) :
      Appends bs fs d (bs₀ ++ ps ++ [(x.init d.toDataPacket).take d]) fs'
        (frameCalls d d.numFrames ++ cs)

/-- Appending to the cleared ring. -/
theorem Appends.of_clear {bs fs data : List ReceivedBlock} {d : NetPacket}
    {bs' fs' : List ReceivedBlock} {cs : List Call}
    (h : Appends [] (data.map (·.clear)) d bs' fs' cs) : Appends bs fs d bs' fs' cs := by
  have hfresh : ∀ y, Fresh (data.map (·.clear)) y → Fresh fs y := by
    rintro y (hy | hy)
    · obtain ⟨z, -, rfl⟩ := List.mem_map.mp hy
      exact Or.inr ⟨z, rfl⟩
    · exact Or.inr hy
  obtain ⟨bs₀, ps, x, fs', cs, hold, hps, hx, hfs, hcs⟩ := h
  refine .mk bs₀ ps x fs' cs (Or.inr (by simpa using hold)) (fun p hp => ?_) (hfresh x hx)
    (fun y hy => hfresh y (hfs y hy)) hcs
  obtain ⟨y, seq, hy, hp⟩ := hps p hp
  exact ⟨y, seq, hfresh y hy, hp⟩

/-- What a packet can do to a ring with blocks `bs` and free slots `fs`. -/
inductive Adds (s : SourceDesc) (bs fs : List ReceivedBlock) (d : NetPacket) :
    List ReceivedBlock → List ReceivedBlock → List Call → Prop
  | refused : Adds s bs fs d bs fs []
  | duplicate (i : Nat) (hi : i < bs.length) (hseq : bs[i].sequence = d.sequence)
      (hempty : bs[i].isEmpty = false) (hplaceholder : bs[i].placeholder = false) :
      Adds s bs fs d bs fs [.hasFrame d.frameIndex bs[i].numFrames]
  | started (i : Nat) (hi : i < bs.length) (hseq : bs[i].sequence = d.sequence)
      (hplaceholder : bs[i].placeholder = true) (resent : Bool) :
      Adds s bs fs d
        (bs.set i (({ bs[i].init d.toDataPacket with resent := resent } : ReceivedBlock).take d))
        fs (frameCalls d d.numFrames)
  | extended (i : Nat) (hi : i < bs.length) (hseq : bs[i].sequence = d.sequence)
      (hempty : bs[i].isEmpty = false) (hplaceholder : bs[i].placeholder = false)
      (hnew : bs[i].hasFrame d.frameIndex = false) (resent : Bool) :
      Adds s bs fs d
        (bs.set i (({ bs[i] with resent := resent } : ReceivedBlock).take d))
        fs (frameCalls d bs[i].numFrames ++ [.hasFrame d.frameIndex bs[i].numFrames])
  | appended (bs' fs' : List ReceivedBlock) (cs : List Call) (h : Appends bs fs d bs' fs' cs)
      (hnone : ∀ b ∈ bs, b.sequence ≠ d.sequence) :
      Adds s bs fs d bs' fs' cs
  | behind (cs : List Call)
      (hread : JitterBuffer.searchThreshold ≤ s.jitterBuffer.size ∧
        s.jitterBuffer.head ≤ s.jitterBuffer.tail ∧ s.jitterBuffer.spare ≠ [])
      (hcs : ∀ c ∈ cs, ∀ full lastPushed seq, c ≠ .push full lastPushed seq) :
      Adds s bs fs d bs fs cs

namespace SourceDesc

variable {s : SourceDesc} {bs fs : List ReceivedBlock}

theorem pushBlock_strong {x : ReceivedBlock} (h : s.jitterBuffer.Strong bs (x :: fs)) {seq : Int}
    (hrange : 0 ≤ seq ∧ seq ≤ 2147483646)
    (hnext : s.jitterBuffer.lastPushed = JitterBuffer.sentinel ∨
      seq - s.jitterBuffer.lastPushed = 1)
    {f : ReceivedBlock → ReceivedBlock} (hf : (f x).sequence = seq) :
    (s.pushBlock seq f).jitterBuffer.Strong (bs ++ [f x]) fs ∧
      ∃ c, (s.pushBlock seq f).calls = c :: s.calls ∧ c.GoodPush := by
  refine ⟨h.emplace hrange hnext hf, _, rfl, _, _, ?_, hnext⟩
  have htotal := h.ring.total
  have hsize := h.ring.size
  rw [List.length_cons] at htotal
  rw [show s.jitterBuffer.full = false from decide_eq_false (by omega)]

theorem lastPushed_pushBlock (s : SourceDesc) (seq : Int) (f : ReceivedBlock → ReceivedBlock) :
    (s.pushBlock seq f).jitterBuffer.lastPushed = seq :=
  (JitterBuffer.modify_counters _ _ _).1

/-- Gaps are filled while there are free slots. -/
theorem fillGaps_strong {xs : List ReceivedBlock} (h : s.jitterBuffer.Strong bs (xs ++ fs))
    {seq : Int} (hseq : seq = s.jitterBuffer.lastPushed + 1) (hlow : 0 ≤ seq)
    (hhigh : seq + xs.length ≤ 2147483647) :
    ∃ ps cs, (s.fillGaps seq xs.length).jitterBuffer.Strong (bs ++ ps) fs ∧
      (∀ p ∈ ps, ∃ y q, y ∈ xs ∧ p = ReceivedBlock.initPlaceholder y q) ∧
      (s.fillGaps seq xs.length).jitterBuffer.lastPushed = seq + xs.length - 1 ∧
      (s.fillGaps seq xs.length).calls = cs ++ s.calls ∧ ∀ c ∈ cs, c.GoodPush := by
  induction xs generalizing s bs seq with
  | nil =>
    refine ⟨[], [], ?_, fun p hp => (by cases hp), ?_, rfl, fun c hc => (by cases hc)⟩
    · rw [List.append_nil]
      exact h
    · show s.jitterBuffer.lastPushed = seq + (0 : Nat) - 1
      omega
  | cons x xs ih =>
    rw [List.length_cons] at hhigh
    obtain ⟨hstrong, c, hc, hgood⟩ := @pushBlock_strong s bs (xs ++ fs) x h seq ⟨hlow, by omega⟩
      (Or.inr (by omega)) (·.initPlaceholder seq) rfl
    obtain ⟨ps, cs, h1, h2, h3, h4, h5⟩ := @ih _ _ hstrong (seq + 1)
      (by rw [lastPushed_pushBlock]) (by omega) (by omega)
    refine ⟨x.initPlaceholder seq :: ps, cs ++ [c], ?_, ?_, ?_, ?_, ?_⟩
    · rw [List.append_assoc, List.singleton_append] at h1
      exact h1
    · intro p hp
      rcases List.mem_cons.mp hp with rfl | hp
      · exact ⟨x, seq, List.mem_cons_self .., rfl⟩
      · obtain ⟨y, q, hy, rfl⟩ := h2 p hp
        exact ⟨y, q, List.mem_cons_of_mem _ hy, rfl⟩
    · rw [List.length_cons, fillGaps, h3]
      push_cast
      omega
    · rw [List.length_cons, fillGaps, h4, hc, List.append_assoc, List.singleton_append]
    · intro c' hc'
      rcases List.mem_append.mp hc' with hc' | hc'
      · exact h5 c' hc'
      · rw [List.mem_singleton.mp hc']
        exact hgood

theorem toInt32_of_range {v : Int} (h0 : -2147483648 ≤ v) (h1 : v < 2147483648) :
    toInt32 v = v :=
  signed_unsigned (by decide) (by push_cast; omega) (by push_cast; omega)

/-- There is room for the new block, and its number is the next one. -/
theorem makeRoom_strong (h : s.jitterBuffer.Strong bs fs) {seq : Int}
    (hrange : 0 ≤ seq ∧ seq ≤ 2147483646) (hnew : ¬ seq ≤ s.jitterBuffer.lastPushed) :
    ∃ bs₀ ps x fs' cs, (s.makeRoom seq).jitterBuffer.Strong (bs₀ ++ ps) (x :: fs') ∧
      (bs₀ = bs ∨ bs₀ = []) ∧
      (∀ p ∈ ps, ∃ y q, Fresh fs y ∧ p = ReceivedBlock.initPlaceholder y q) ∧ Fresh fs x ∧
      (∀ y ∈ fs', Fresh fs y) ∧
      ((s.makeRoom seq).jitterBuffer.lastPushed = JitterBuffer.sentinel ∨
        seq - (s.makeRoom seq).jitterBuffer.lastPushed = 1) ∧
      (s.makeRoom seq).calls = cs ++ s.calls ∧ ∀ c ∈ cs, c.GoodPush := by
  have htotal := h.ring.total
  have hsize := h.ring.size
  have hcap := h.ring.capacity_pos
  unfold makeRoom
  simp only
  split
  next hne =>
    have hpushed : -1 ≤ s.jitterBuffer.lastPushed - (bs.length : Int) ∧
        s.jitterBuffer.lastPushed ≤ 2147483646 := by
      rcases h.pushed with hc | hc | hc
      · exact absurd hc.1 hne
      · omega
      · exact hc
    rw [toInt32_of_range (by omega) (by omega)]
    split
    next =>
      -- overrun: the ring is cleared
      have hreset := JitterBuffer.strong_reset hcap
      obtain ⟨x, fs', hfs⟩ := List.exists_cons_of_length_pos
        (show 0 < (s.jitterBuffer.data.map (·.clear)).length by rw [List.length_map]; exact hcap)
      have hfresh : ∀ y ∈ x :: fs', Fresh fs y := by
        intro y hy
        rw [← hfs] at hy
        obtain ⟨z, -, rfl⟩ := List.mem_map.mp hy
        exact Or.inr ⟨z, rfl⟩
      rw [hfs] at hreset
      exact ⟨[], [], x, fs', [], hreset, Or.inr rfl, fun p hp => (by cases hp),
        hfresh x (List.mem_cons_self ..), fun y hy => hfresh y (List.mem_cons_of_mem _ hy),
        Or.inl rfl, rfl, fun c hc => (by cases hc)⟩
    next hspace =>
      -- as many free slots as there are gaps, and one more
      obtain ⟨k, hk⟩ : ∃ k : Nat, (seq - (s.jitterBuffer.lastPushed + 1)).toNat = k := ⟨_, rfl⟩
      rw [hk]
      have hlt : k < fs.length := by omega
      have hsplit : fs = fs.take k ++ (fs[k] :: fs.drop (k + 1)) := by
        rw [List.getElem_cons_drop, List.take_append_drop]
      have hlen : (fs.take k).length = k := by
        rw [List.length_take]
        omega
      rw [hsplit] at h
      obtain ⟨ps, cs, h1, h2, h3, h4, h5⟩ := @fillGaps_strong s bs _ (fs.take k) h
        (s.jitterBuffer.lastPushed + 1) rfl (by omega) (by rw [hlen]; omega)
      rw [hlen] at h1 h3 h4
      refine ⟨bs, ps, fs[k], fs.drop (k + 1), cs, h1, Or.inl rfl, fun p hp => ?_,
        Or.inl (List.getElem_mem _), fun y hy => Or.inl (List.mem_of_mem_drop hy), Or.inr ?_, h4, h5⟩
      · obtain ⟨y, q, hy, rfl⟩ := h2 p hp
        exact ⟨y, q, Or.inl (List.mem_of_mem_take hy), rfl⟩
      · omega
  next hs =>
    rw [not_not] at hs
    have hnil : bs = [] := by
      rcases h.pushed with hc | hc | hc
      · exact hc.2.1
      · exact hc.2.1
      · unfold JitterBuffer.sentinel at hs
        omega
    subst hnil
    rw [List.length_nil, Nat.zero_add] at htotal
    obtain ⟨x, fs', rfl⟩ := List.exists_cons_of_length_pos (l := fs) (by omega)
    exact ⟨[], [], x, fs', [], h, Or.inl rfl, fun p hp => (by cases hp),
      Or.inl (List.mem_cons_self ..), fun y hy => Or.inl (List.mem_cons_of_mem _ hy), Or.inl hs, rfl,
      fun c hc => (by cases hc)⟩

/-- What `modify` leaves as it is. -/
theorem modify_frame (b : JitterBuffer) (j : Nat) (f : ReceivedBlock → ReceivedBlock) :
    (b.modify j f).tail = b.tail ∧ (b.modify j f).capacity = b.capacity := by
  unfold JitterBuffer.modify
  split
  next => exact ⟨rfl, List.length_set⟩
  next => exact ⟨rfl, rfl⟩

theorem addFrame_strong (h : s.jitterBuffer.Strong bs fs) {i : Nat} (hi : i < bs.length)
    (d : NetPacket) {slot : Nat}
    (hslot : slot = (s.jitterBuffer.tail + i) % s.jitterBuffer.capacity) :
    (s.addFrame d slot).jitterBuffer.Strong (bs.set i (bs[i].take d)) fs ∧
      (s.addFrame d slot).calls = frameCalls d bs[i].numFrames ++ s.calls := by
  unfold addFrame ReceivedBlock.take frameCalls
  split
  next =>
    have hat := h.ring.slot_at (i := i) (by rw [List.length_append]; omega)
    rw [List.getElem_append_left hi] at hat
    subst hslot
    have hmod := h.modify hi (f := fun b => b.addFrame d.frameIndex d.data)
      (ReceivedBlock.addFrame_sequence ..)
    refine ⟨hmod, ?_⟩
    show Call.addFrame d.frameIndex (s.jitterBuffer.slot _).numFrames :: s.calls = _
    rw [hat]
    rfl
  next =>
    rw [List.set_getElem_self]
    exact ⟨h, rfl⟩

theorem init_numFrames (b : ReceivedBlock) (d : DataPacket) : (b.init d).numFrames = d.numFrames := by
  unfold ReceivedBlock.init ReceivedBlock.numFrames DataFrameStorage.init
  simp only
  split <;> rfl

/-- A block that is newer than the others is appended. -/
theorem addBlock_appends (h : s.jitterBuffer.Strong bs fs) {d : NetPacket}
    (hrange : 0 ≤ d.sequence ∧ d.sequence ≤ 2147483646)
    (hnew : ¬ d.sequence ≤ s.jitterBuffer.lastPushed) :
    ∃ bs' fs' cs, (s.addBlock d).1.jitterBuffer.Strong bs' fs' ∧
      (s.addBlock d).1.calls = cs ++ s.calls ∧ Appends bs fs d bs' fs' cs := by
  obtain ⟨bs₀, ps, x, fs', cs, h1, hold, hps, hx, hfs, hnext, hcalls, hcs⟩ :=
    makeRoom_strong h hrange hnew
  obtain ⟨h2, c, hc, hgood⟩ := @pushBlock_strong _ _ _ _ h1 d.sequence hrange hnext
    (·.init d.toDataPacket) rfl
  have hframe := modify_frame ((s.makeRoom d.sequence).jitterBuffer.push d.sequence).2
    ((s.makeRoom d.sequence).jitterBuffer.push d.sequence).1 (·.init d.toDataPacket)
  -- the new block is the last one
  have hslot : (s.makeRoom d.sequence).jitterBuffer.head =
      (((s.makeRoom d.sequence).pushBlock d.sequence (·.init d.toDataPacket)).jitterBuffer.tail +
        (bs₀ ++ ps).length) %
      ((s.makeRoom d.sequence).pushBlock d.sequence
        (·.init d.toDataPacket)).jitterBuffer.capacity := by
    rw [h1.ring.head, h1.ring.size]
    exact congrArg₂ (· % ·) (congrArg (· + _) hframe.1.symm) hframe.2.symm
  obtain ⟨h3, h4⟩ := addFrame_strong h2 (i := (bs₀ ++ ps).length) (by simp) d hslot
  rw [List.getElem_append_right (Nat.le_refl _)] at h3 h4
  simp only [Nat.sub_self, List.getElem_singleton] at h3 h4
  rw [List.set_append_right _ _ (Nat.le_refl _), Nat.sub_self, List.set_cons_zero] at h3
  rw [init_numFrames, hc, hcalls] at h4
  unfold addBlock
  rw [if_neg hnew]
  refine ⟨_, _, frameCalls d d.numFrames ++ (c :: cs), h3, ?_,
    .mk bs₀ ps x fs' (c :: cs) hold hps hx hfs ?_⟩
  · simp only [h4, List.append_assoc, List.cons_append]
  · intro c' hc'
    rcases List.mem_cons.mp hc' with rfl | hc'
    · exact hgood
    · exact hcs c' hc'

theorem noteResent_strong (h : s.jitterBuffer.Strong bs fs) {i : Nat} (hi : i < bs.length)
    (d : NetPacket) {slot : Nat}
    (hslot : slot = (s.jitterBuffer.tail + i) % s.jitterBuffer.capacity) :
    ∃ resent : Bool, (s.noteResent d slot).jitterBuffer.Strong
        (bs.set i { bs[i] with resent := resent }) fs ∧
      (s.noteResent d slot).calls = s.calls ∧
      (s.noteResent d slot).jitterBuffer.tail = s.jitterBuffer.tail ∧
      (s.noteResent d slot).jitterBuffer.capacity = s.jitterBuffer.capacity := by
  unfold noteResent
  split
  next =>
    obtain ⟨h1, h2⟩ := modify_frame s.jitterBuffer slot fun b => { b with resent := true }
    refine ⟨true, ?_, rfl, h1, h2⟩
    rw [hslot]
    exact h.modify hi (f := fun b => { b with resent := true }) rfl
  next =>
    refine ⟨bs[i].resent, ?_, rfl, rfl, rfl⟩
    rw [show ({ bs[i] with resent := bs[i].resent } : ReceivedBlock) = bs[i] from rfl,
      List.set_getElem_self]
    exact h

/-- The frame goes to the block in the slot. -/
theorem noteResent_addFrame (h : s.jitterBuffer.Strong bs fs) {i : Nat} (hi : i < bs.length)
    (d : NetPacket) {slot : Nat}
    (hslot : slot = (s.jitterBuffer.tail + i) % s.jitterBuffer.capacity) :
    ∃ resent : Bool, ((s.noteResent d slot).addFrame d slot).jitterBuffer.Strong
        (bs.set i (({ bs[i] with resent := resent } : ReceivedBlock).take d)) fs ∧
      ((s.noteResent d slot).addFrame d slot).calls =
        frameCalls d bs[i].numFrames ++ s.calls := by
  obtain ⟨resent, h1, h2, h3, h4⟩ := noteResent_strong h hi d hslot
  obtain ⟨h5, h6⟩ := @addFrame_strong _ _ _ h1 i (by rw [List.length_set]; exact hi) d slot
    (by rw [h3, h4, hslot])
  rw [List.getElem_set_self] at h5 h6
  rw [List.set_set] at h5
  rw [h2] at h6
  exact ⟨resent, h5, h6⟩

/-- A packet of a block that is in the ring. -/
theorem updateBlock_adds (h : s.jitterBuffer.Strong bs fs) {i : Nat} (hi : i < bs.length)
    {d : NetPacket} (hseq : bs[i].sequence = d.sequence) {slot : Nat}
    (hslot : slot = (s.jitterBuffer.tail + i) % s.jitterBuffer.capacity) :
    ∃ bs' fs' cs, (s.updateBlock d slot).1.jitterBuffer.Strong bs' fs' ∧
      (s.updateBlock d slot).1.calls = cs ++ s.calls ∧ Adds s bs fs d bs' fs' cs := by
  have hat := h.ring.slot_at (i := i) (by rw [List.length_append]; omega)
  rw [List.getElem_append_left hi, ← hslot] at hat
  unfold updateBlock
  simp only [hat]
  split
  next hp =>
    have hinit := h.modify (i := i) hi (f := fun b => b.init d.toDataPacket) hseq.symm
    obtain ⟨hf1, hf2⟩ := modify_frame s.jitterBuffer slot fun b => b.init d.toDataPacket
    rw [← hslot] at hinit
    obtain ⟨resent, h1, h2⟩ := @noteResent_addFrame
      { s with jitterBuffer := s.jitterBuffer.modify slot fun b => b.init d.toDataPacket } _ _ hinit i
      (by rw [List.length_set]; exact hi) d slot (by rw [hf1, hf2]; exact hslot)
    rw [List.getElem_set_self] at h1 h2
    rw [List.set_set] at h1
    rw [init_numFrames] at h2
    exact ⟨_, _, _, h1, h2, .started i hi hseq hp resent⟩
  next hp =>
    rw [Bool.not_eq_true] at hp
    split
    next => exact ⟨bs, fs, [], h, rfl, .refused⟩
    next he =>
      rw [Bool.not_eq_true] at he
      split
      next => exact ⟨bs, fs, _, h, rfl, .duplicate i hi hseq he hp⟩
      next hf =>
        rw [Bool.not_eq_true] at hf
        obtain ⟨resent, h1, h2⟩ := @noteResent_addFrame
          (s.record (.hasFrame d.frameIndex bs[i].numFrames)) bs fs h i hi d slot hslot
        refine ⟨_, _, _, h1, ?_, .extended i hi hseq he hp hf resent⟩
        rw [h2, List.append_assoc]
        rfl

/-- Behind the vector a packet does not change the ring. -/
theorem updateBlock_behind (h : s.jitterBuffer.Strong bs fs) {d : NetPacket} {slot : Nat}
    (hslot : s.jitterBuffer.capacity ≤ slot) :
    (s.updateBlock d slot).1.jitterBuffer.Strong bs fs ∧
      ∃ cs, (s.updateBlock d slot).1.calls = cs ++ s.calls ∧
        ∀ c ∈ cs, ∀ full lastPushed seq, c ≠ .push full lastPushed seq := by
  have hrest : ∀ t : SourceDesc, t.jitterBuffer.Strong bs fs → t.jitterBuffer.capacity ≤ slot →
      ((t.noteResent d slot).addFrame d slot).jitterBuffer.Strong bs fs ∧
      ∃ cs, ((t.noteResent d slot).addFrame d slot).calls = cs ++ t.calls ∧
        ∀ c ∈ cs, ∀ full lastPushed seq, c ≠ .push full lastPushed seq := by
    intro t ht hcap
    have h1 : (t.noteResent d slot).jitterBuffer.Strong bs fs ∧
        (t.noteResent d slot).calls = t.calls ∧
        (t.noteResent d slot).jitterBuffer.capacity ≤ slot := by
      unfold noteResent
      split
      next =>
        refine ⟨ht.modify_spare hcap fun b => { b with resent := true }, rfl, ?_⟩
        rw [(modify_frame _ _ _).2]
        exact hcap
      next => exact ⟨ht, rfl, hcap⟩
    unfold addFrame
    split
    next =>
      refine ⟨h1.1.modify_spare h1.2.2 fun b => b.addFrame d.frameIndex d.data, [_],
        congrArg (_ :: ·) h1.2.1, fun c hc => ?_⟩
      rw [List.mem_singleton.mp hc]
      nofun
    next => exact ⟨h1.1, [], h1.2.1, nofun⟩
  unfold updateBlock
  simp only
  split
  next =>
    refine hrest { s with jitterBuffer := s.jitterBuffer.modify slot (·.init d.toDataPacket) }
      (h.modify_spare hslot (·.init d.toDataPacket)) ?_
    rw [(modify_frame _ _ _).2]
    exact hslot
  next =>
    split
    next => exact ⟨h, [], rfl, nofun⟩
    next =>
      split
      next =>
        refine ⟨h, [_], rfl, fun c hc => ?_⟩
        rw [List.mem_singleton.mp hc]
        nofun
      next =>
        obtain ⟨h1, cs, h2, h3⟩ := hrest (s.record _) h hslot
        refine ⟨h1, cs ++ [_], h2.trans (List.append_cons ..), fun c hc => ?_⟩
        rcases List.mem_append.mp hc with hc | hc
        · exact h3 c hc
        · rw [List.mem_singleton.mp hc]
          nofun

/-- **What a packet can do** to a ring. -/
theorem addPacket_adds (h : s.jitterBuffer.Strong bs fs) {d : NetPacket}
    (hrange : 0 ≤ d.sequence ∧ d.sequence ≤ 2147483646) :
    ∃ bs' fs' cs, (s.addPacket d).1.jitterBuffer.Strong bs' fs' ∧
      (s.addPacket d).1.calls = cs ++ s.calls ∧ Adds s bs fs d bs' fs' cs := by
  have hrefused : ∃ bs' fs' cs, s.jitterBuffer.Strong bs' fs' ∧ s.calls = cs ++ s.calls ∧
      Adds s bs fs d bs' fs' cs := ⟨bs, fs, [], h, rfl, .refused⟩
  unfold addPacket
  split
  next => exact hrefused
  next =>
    split
    next => exact hrefused
    next =>
      split
      next => exact hrefused
      next s₁ hs₁ =>
        unfold checkWrap at hs₁
        split at hs₁
        next =>
          split at hs₁
          next =>
            -- the sequence has wrapped around, the ring is cleared
            cases hs₁
            have hreset := JitterBuffer.strong_reset h.ring.capacity_pos
            have hnone : s.jitterBuffer.reset.find d.sequence = none := rfl
            simp only [hnone]
            have hnew : ¬ d.sequence ≤ s.jitterBuffer.reset.lastPushed := by
              show ¬ d.sequence ≤ -2147483648
              omega
            obtain ⟨bs', fs', cs, h1, h2, h3⟩ := @addBlock_appends
              { s with jitterBuffer := s.jitterBuffer.reset } _ _ hreset d hrange hnew
            refine ⟨bs', fs', cs, h1, h2, .appended _ _ _ h3.of_clear fun x hx heq => ?_⟩
            have hlow := (h.between hx).1
            rcases h.popped with hp | hp
            · unfold JitterBuffer.sentinel at hp
              omega
            · omega
          next => cases hs₁
        next =>
          cases hs₁
          split
          next =>
            by_cases hnew : d.sequence ≤ s.jitterBuffer.lastPushed
            · rw [addBlock, if_pos hnew]
              exact hrefused
            · obtain ⟨bs', fs', cs, h1, h2, h3⟩ := addBlock_appends h hrange hnew
              refine ⟨bs', fs', cs, h1, h2, .appended _ _ _ h3 fun x hx heq => ?_⟩
              have hhigh := (h.between hx).2
              omega
          next slot hfind =>
            obtain ⟨hseq, ⟨i, hi, hslot⟩ | ⟨hcap, hsize, hhead, hlt⟩⟩ := h.ring.find_some hfind
            · have hat := h.ring.slot_at (i := i) (by rw [List.length_append]; omega)
              rw [← hslot, List.getElem_append_left hi] at hat
              rw [hat] at hseq
              exact updateBlock_adds h hi hseq hslot
            · obtain ⟨h1, cs, h2, h3⟩ := updateBlock_behind h hcap
              refine ⟨bs, fs, cs, h1, h2, .behind cs ⟨hsize, hhead, ?_⟩ h3⟩
              intro hnil
              rw [hnil, List.length_nil] at hlt
              omega

end SourceDesc

end Aoo.Stream
