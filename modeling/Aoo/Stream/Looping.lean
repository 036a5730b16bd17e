import Aoo.Stream.Recovery

/-!
# Does the loop over the windows end?

`checkMissingBlocks` stops the loop over the windows of a block where its offset, an
`int16_t`, starts again. Here the loop has fuel and may fail to end: `runCheck` is the
function with `none` for a loop that has run out. With enough fuel both do the same, unless a
block that is requested has more than 32752 frames, a number that the wire format has room
for; then no fuel is enough (`check_ends_iff`).
-/

namespace Aoo.Stream

open Lib

namespace SourceDesc

/-- The loop over the windows of a block, from `offset` on; `none` if it has not ended yet. -/
def requestWindows (b : ReceivedBlock) :
    (fuel : Nat) → (offset : Int) → List DataRequest → Option (List DataRequest)
  | 0, _, _ => none
  | fuel + 1, offset, queue =>
    if offset < b.numFrames then
      let bitset := missingBits b offset
      requestWindows b fuel (toInt16 (offset + 16))
        (if bitset ≠ 0 then queue ++ [⟨b.sequence, offset, bitset⟩] else queue)
    else some queue

/-- A block is requested: some frames, or the whole block. -/
def requestBlock (fuel : Nat) (b : ReceivedBlock) (queue : List DataRequest) :
    Option (List DataRequest) :=
  if b.receivedFrames > 0 then requestWindows b fuel 0 queue
  else some (queue ++ [⟨b.sequence, -1, 0⟩])

/-- The loop over the blocks; each block has the same fuel. -/
def runBlocks (fuel : Nat) (limit : Int) :
    List (Nat × Bool) → (resent : Nat) → SourceDesc → Option SourceDesc
  | [], _, s => some s
  | (slot, due) :: rest, resent, s =>
    let b := s.jitterBuffer.slot slot
    if !b.complete && due then
      (requestBlock fuel b s.dataRequests).bind fun queue =>
        let s := { s with
          jitterBuffer := s.jitterBuffer.modify slot (·.update s.elapsedTime)
          asked := (slot, s.elapsedTime) :: s.otherAsked slot
          dataRequests := queue
          calls := (blockCalls b).reverse ++ s.calls }
        if (resent : Int) + 1 ≥ limit then some s else runBlocks fuel limit rest (resent + 1) s
    else runBlocks fuel limit rest resent s

/-- The blocks that the loop looks at, and whether it is time to request them. -/
def candidates (s : SourceDesc) (resendEnabled : Bool) (due : List Bool) : List (Nat × Bool) :=
  if s.wired then []
  else if s.jitterBuffer.size ≤ 1 ∨ ¬ resendEnabled then []
  else (s.jitterBuffer.indices.take (s.jitterBuffer.size - 1)).zip due

/-- `source_desc::check_missing_blocks` -/
def runCheck (fuel : Nat) (s : SourceDesc) (resendEnabled : Bool) (limit : Int)
    (due : List Bool) : Option SourceDesc :=
  runBlocks fuel limit (s.candidates resendEnabled due) 0 s

/-- The blocks that are requested, up to the limit. -/
def visited (b : JitterBuffer) (limit : Int) :
    List (Nat × Bool) → (resent : Nat) → List ReceivedBlock
  | [], _ => []
  | (slot, due) :: rest, resent =>
    if !(b.slot slot).complete && due then
      b.slot slot ::
        if (resent : Int) + 1 ≥ limit then [] else visited b limit rest (resent + 1)
    else visited b limit rest resent

/-- The blocks that `check_missing_blocks` requests. -/
def requested (s : SourceDesc) (resendEnabled : Bool) (limit : Int) (due : List Bool) :
    List ReceivedBlock :=
  visited s.jitterBuffer limit (s.candidates resendEnabled due) 0

/-! ## One block -/

/-- The loop runs out of fuel if there are as many windows. -/
theorem requestWindows_eq (b : ReceivedBlock) :
    ∀ (fuel : Nat) (offset : Int) (queue : List DataRequest),
      requestWindows b fuel offset queue =
        if (windows b fuel offset).length < fuel then
          some (queue ++ ((windows b fuel offset).map
            fun offset => (⟨b.sequence, offset, missingBits b offset⟩ : DataRequest)).filter
              fun r => r.bitset ≠ 0)
        else none := by
  intro fuel
  induction fuel with
  | zero =>
    intro offset queue
    rfl
  | succ fuel ih =>
    intro offset queue
    rw [requestWindows, windows]
    split
    next hlt =>
      simp only [ih, List.length_cons, Nat.add_lt_add_iff_right, List.map_cons, List.filter_cons]
      split
      · by_cases hbits : missingBits b offset = 0
        · simp [hbits]
        · simp [hbits]
      · rfl
    next hge => simp

/-- A block with too many frames is never done. -/
theorem requestBlock_none {b : ReceivedBlock} (hpos : b.receivedFrames > 0)
    (hb : 32752 < b.numFrames) :
    ∀ (fuel : Nat) (queue : List DataRequest), requestBlock fuel b queue = none := by
  intro fuel queue
  rw [requestBlock, if_pos hpos, requestWindows_eq,
    windows_length hb fuel 0 rfl (by decide) (by decide), if_neg (Nat.lt_irrefl fuel)]

/-- The windows of a block that is not too large. -/
theorem windows_small {b : ReceivedBlock} (hb : b.numFrames ≤ 32752) :
    (windows b 4096 0).length < 4096 ∧
      ∀ offset ∈ windows b 4096 0, (∃ k : Nat, offset = 16 * k) ∧ offset < b.numFrames := by
  by_cases hneg : b.numFrames < 0
  -- no frames, as far as the loop can see
  · rw [windows, if_neg (by omega)]
    exact ⟨by decide, fun offset h => by cases h⟩
  · obtain ⟨n, hn⟩ := Int.eq_ofNat_of_zero_le (Int.not_lt.mp hneg)
    rw [windows_eq hn (by omega)]
    constructor
    · rw [List.length_map, List.length_range]
      unfold numChunks
      split
      · omega
      · omega
    · intro offset h
      obtain ⟨k, hk, rfl⟩ := List.mem_map.mp h
      have hlt := @mul_lt_of_lt_numChunks n 16 k (by decide) (List.mem_range.mp hk)
      exact ⟨⟨k, by push_cast; rfl⟩, by omega⟩

/-- Otherwise the requests for the block go to the queue. -/
theorem requestBlock_some {b : ReceivedBlock} (hb : b.receivedFrames > 0 → b.numFrames ≤ 32752)
    (queue : List DataRequest) :
    requestBlock 4096 b queue = some (queue ++ blockRequests b) := by
  rw [requestBlock, blockRequests]
  split
  next hpos => rw [requestWindows_eq, if_pos (windows_small (hb hpos)).1]
  next => rfl

/-- A request as it should be: for a window of the block, or for the whole block. -/
def WellFormed (b : ReceivedBlock) (r : DataRequest) : Prop :=
  r.sequence = b.sequence ∧
    (((∃ k : Nat, r.offset = 16 * k) ∧ r.offset < b.numFrames) ∨ (r.offset = -1 ∧ r.bitset = 0))

theorem blockRequests_wellFormed {b : ReceivedBlock}
    (hb : b.receivedFrames > 0 → b.numFrames ≤ 32752) :
    ∀ r ∈ blockRequests b, WellFormed b r := by
  intro r hr
  rw [blockRequests] at hr
  split at hr
  next hpos =>
    obtain ⟨offset, hoffset, rfl⟩ := List.mem_map.mp (List.mem_filter.mp hr).1
    exact ⟨rfl, Or.inl ((windows_small (hb hpos)).2 offset hoffset)⟩
  next =>
    rw [List.mem_singleton.mp hr]
    exact ⟨rfl, Or.inr ⟨rfl, rfl⟩⟩

/-! ## All blocks -/

/-- The buffers differ in the numbers of tries and in the times only. -/
def Alike (b b' : JitterBuffer) : Prop :=
  ∀ i, ∃ n t, b'.slot i = { b.slot i with numTries := n, timestamp := t }

theorem Alike.refl (b : JitterBuffer) : Alike b b := fun _ => ⟨_, _, rfl⟩

/-- An assignment changes at most its slot. -/
theorem slot_modify (b : JitterBuffer) (j : Nat) (f : ReceivedBlock → ReceivedBlock) (i : Nat) :
    (b.modify j f).slot i = b.slot i ∨ (b.modify j f).slot i = f (b.slot i) := by
  rw [JitterBuffer.slot, JitterBuffer.append_modify, List.getD_eq_getElem?_getD, List.getElem?_set]
  split
  next heq =>
    subst heq
    split
    · exact Or.inr rfl
    next hout =>
      left
      rw [JitterBuffer.slot, List.getD_eq_getElem?_getD,
        List.getElem?_eq_none (Nat.not_lt.mp hout)]
  next => exact Or.inl (List.getD_eq_getElem?_getD ..).symm

theorem Alike.update {b b' : JitterBuffer} (h : Alike b b') (j : Nat) (time : ℚ) :
    Alike b (b'.modify j (·.update time)) := by
  intro i
  obtain ⟨n, t, hn⟩ := h i
  rcases slot_modify b' j (·.update time) i with heq | heq
  · exact ⟨n, t, heq.trans hn⟩
  · exact ⟨(n + 1) % 65536, time, by rw [heq, hn]; rfl⟩

/-- **The loop over the blocks ends** if no block is too large. -/
theorem runBlocks_some {b : JitterBuffer} {limit : Int} :
    ∀ (l : List (Nat × Bool)) (resent : Nat) {s : SourceDesc}, Alike b s.jitterBuffer →
      (∀ x ∈ visited b limit l resent, x.receivedFrames > 0 → x.numFrames ≤ 32752) →
      runBlocks 4096 limit l resent s = some (requestBlocks limit l resent s) ∧
        ∃ rs, (requestBlocks limit l resent s).dataRequests = s.dataRequests ++ rs ∧
          ∀ r ∈ rs, ∃ x ∈ visited b limit l resent, WellFormed x r := by
  intro l
  induction l with
  | nil =>
    intro resent s _ _
    exact ⟨rfl, [], (List.append_nil _).symm, fun r hr => by cases hr⟩
  | cons p l ih =>
    intro resent s halike hsmall
    obtain ⟨slot, due⟩ := p
    obtain ⟨n, t, hn⟩ := halike slot
    have hsame : (s.jitterBuffer.slot slot).complete = (b.slot slot).complete := by rw [hn]; rfl
    rw [visited] at hsmall ⊢
    rw [runBlocks, requestBlocks]
    simp only [hsame]
    split
    next hdue =>
      rw [if_pos hdue] at hsmall
      have hfirst : (s.jitterBuffer.slot slot).receivedFrames > 0 →
          (s.jitterBuffer.slot slot).numFrames ≤ 32752 := by
        rw [hn]
        exact hsmall (b.slot slot) (List.mem_cons_self ..)
      have hformed : ∀ r ∈ blockRequests (s.jitterBuffer.slot slot), WellFormed (b.slot slot) r := by
        intro r hr
        have := blockRequests_wellFormed hfirst r hr
        rw [hn] at this
        exact this
      rw [requestBlock_some hfirst]
      simp only [Option.bind_some]
      split
      next hlimit =>
        exact ⟨rfl, _, rfl, fun r hr => ⟨_, List.mem_cons_self .., hformed r hr⟩⟩
      next hlimit =>
        rw [if_neg hlimit] at hsmall
        -- the tries of this block have changed, but not what the loop reads of the others
        obtain ⟨hrun, rs, hqueue, hrs⟩ := ih (resent + 1) (halike.update slot s.elapsedTime)
          (s := { s with
            jitterBuffer := s.jitterBuffer.modify slot (·.update s.elapsedTime)
            asked := (slot, s.elapsedTime) :: s.otherAsked slot
            dataRequests := s.dataRequests ++ blockRequests (s.jitterBuffer.slot slot)
            calls := (blockCalls (s.jitterBuffer.slot slot)).reverse ++ s.calls })
          (fun x hx => hsmall x (List.mem_cons_of_mem _ hx))
        refine ⟨hrun, blockRequests (s.jitterBuffer.slot slot) ++ rs, ?_, ?_⟩
        · rw [hqueue, List.append_assoc]
        · intro r hr
          rcases List.mem_append.mp hr with hr | hr
          · exact ⟨_, List.mem_cons_self .., hformed r hr⟩
          · obtain ⟨x, hx, hformed'⟩ := hrs r hr
            exact ⟨x, List.mem_cons_of_mem _ hx, hformed'⟩
    next hdue =>
      rw [if_neg hdue] at hsmall
      exact ih resent halike hsmall

/-- **The loop over the blocks does not end** once it gets to a block that is too large. -/
theorem runBlocks_none {b : JitterBuffer} {limit : Int} {x : ReceivedBlock}
    (hpos : x.receivedFrames > 0) (hlarge : 32752 < x.numFrames) (fuel : Nat) :
    ∀ (l : List (Nat × Bool)) (resent : Nat) {s : SourceDesc}, Alike b s.jitterBuffer →
      x ∈ visited b limit l resent → runBlocks fuel limit l resent s = none := by
  intro l
  induction l with
  | nil =>
    intro resent s _ hx
    cases hx
  | cons p l ih =>
    intro resent s halike hx
    obtain ⟨slot, due⟩ := p
    obtain ⟨n, t, hn⟩ := halike slot
    have hsame : (s.jitterBuffer.slot slot).complete = (b.slot slot).complete := by rw [hn]; rfl
    rw [visited] at hx
    rw [runBlocks]
    simp only [hsame]
    split
    next hdue =>
      rw [if_pos hdue] at hx
      rcases List.mem_cons.mp hx with rfl | hx
      · rw [requestBlock_none (by rw [hn]; exact hpos) (by rw [hn]; exact hlarge),
          Option.bind_none]
      -- the block comes later, if the loop gets there
      · rw [Option.bind_eq_none_iff]
        intro queue hqueue
        split at hx
        next => cases hx
        next hlimit =>
          rw [if_neg hlimit]
          exact ih (resent + 1) (halike.update slot _) hx
    next hdue =>
      rw [if_neg hdue] at hx
      exact ih resent halike hx

theorem requestBlocks_candidates (s : SourceDesc) (resendEnabled : Bool) (limit : Int)
    (due : List Bool) :
    requestBlocks limit (s.candidates resendEnabled due) 0 s =
      s.checkMissingBlocks resendEnabled limit due := by
  rw [candidates, checkMissingBlocks]
  split
  · rfl
  · split
    · rfl
    · rfl

/-- **`check_missing_blocks` ends**, and asks for windows inside of the blocks or for whole
blocks, exactly if no block that is requested has some of more than 32752 frames; then it
is `checkMissingBlocks`. -/
theorem check_ends_iff (s : SourceDesc) (resendEnabled : Bool) (limit : Int) (due : List Bool) :
    (∃ fuel t, s.runCheck fuel resendEnabled limit due = some t ∧
      t = s.checkMissingBlocks resendEnabled limit due ∧
      ∃ rs, t.dataRequests = s.dataRequests ++ rs ∧
        ∀ r ∈ rs, ∃ b ∈ s.requested resendEnabled limit due, WellFormed b r) ↔
      ∀ b ∈ s.requested resendEnabled limit due, b.receivedFrames > 0 → b.numFrames ≤ 32752 := by
  constructor
  · rintro ⟨fuel, t, hrun, -, -⟩ b hb hpos
    by_contra hlarge
    rw [runCheck, runBlocks_none hpos (Int.not_le.mp hlarge) fuel _ 0 (.refl _) hb] at hrun
    cases hrun
  · intro hsmall
    obtain ⟨hrun, hqueue⟩ := runBlocks_some _ 0 (.refl _) hsmall
    rw [requestBlocks_candidates] at hrun hqueue
    exact ⟨4096, _, hrun, rfl, hqueue⟩

/-- Two binary messages: a frame of a block with 40000 frames, and the next block. The loop
does not end. -/
theorem check_never_ends :
    let d₀ : NetPacket := ⟨⟨0, 0, 0, 0, 40000, 0, 40000, 0, [1], 2, 0, 0, 0, 0, 0, 0, 0⟩, 7⟩
    let d₁ : NetPacket := ⟨⟨1, 0, 0, 0, 1, 0, 1, 0, [1], 0, 0, 0, 0, 0, 0, 0, 0⟩, 7⟩
    let as : List SinkAction :=
      [.handleStart ⟨7, 0, none, some 64, true, ⟨0, 2, 1, 3, [], by decide⟩, by decide⟩,
        .addPacket d₀, .addPacket d₁]
    parseDataBin [0, 0, 0, 7, 0, 0, 0, 0, 0, 2, 0, 1, 0, 0, 0x9C, 0x40, 0x9C, 0x40, 0, 0, 1] =
        some d₀ ∧
      parseDataBin [0, 0, 0, 7, 0, 0, 0, 1, 0, 0, 0, 1, 1] = some d₁ ∧
      ∀ fuel, (as.foldl SourceDesc.step {}).runCheck fuel true 16 [true] = none := by
  intro d₀ d₁ as
  refine ⟨by decide +kernel, by decide +kernel, fun fuel => ?_⟩
  obtain ⟨x, hx⟩ : ∃ x, (as.foldl SourceDesc.step {}).requested true 16 [true] = [x] ∧
      x.receivedFrames > 0 ∧ 32752 < x.numFrames :=
    ⟨((as.foldl SourceDesc.step {}).requested true 16 [true]).headD {}, by decide +kernel,
      by decide +kernel, by decide +kernel⟩
  refine runBlocks_none hx.2.1 hx.2.2 fuel _ 0 (.refl _) ?_
  have hmem : x ∈ (as.foldl SourceDesc.step {}).requested true 16 [true] := by
    rw [hx.1]
    exact List.mem_singleton_self x
  exact hmem

end SourceDesc

end Aoo.Stream
