import Aoo.Lib.Run
import Aoo.Stream.JitterBuffer
import Aoo.Stream.Resend

/-!
# Looking up blocks

Both buffers look up blocks by their number with binary searches. Each relies on
something that does not always hold.

The history buffer of a source refuses numbers below that of its oldest block. The numbers
of a stream wrap around before `INT32_MAX`, and while the buffer has blocks from
before and after that, those from after it are not found (`history_find_iff`).

The jitter buffer of a sink searches to the capacity of its vector instead of its size. What is
there is not part of the buffer; `readSlots` are the slots that a search looks at. The
search is a plain scan in disguise, and stays in the buffer, as long as it does not get there
(`jitter_find_iff`).
-/

namespace Aoo.Stream

open Lib

/-! ## The history buffer -/

/-- The blocks that were saved last, as many as the history buffer has room for. -/
def Run.lastSaved (r : Run) : List Original :=
  r.saved.drop (r.saved.length - min r.saved.length r.source.history.capacity)

/-- The history buffer is as full as it can be. -/
def Run.Filled (r : Run) : Prop :=
  r.source.history.size = min r.saved.length r.source.history.capacity

theorem Run.Filled.kept {r : Run} (h : r.Filled) : r.kept = r.lastSaved := by
  rw [Run.kept, Run.lastSaved, h]

theorem filled_cleared {r : Run} (hsaved : r.saved = []) (hsize : r.source.history.size = 0) :
    r.Filled := by
  rw [Run.Filled, hsaved, hsize, List.length_nil, Nat.zero_min]

/-- A block that is sent is saved in both. -/
theorem Run.Filled.sent {r r' : Run} (h : r.Filled) {o : Original} (block : SentBlock)
    (hsaved : r'.saved = r.remember o)
    (hhistory : r'.source.history =
      if r.source.sequence = invalidStream ∨ r.source.cachedSinks = [] then r.source.history
      else r.source.save block) : r'.Filled := by
  rw [Run.Filled] at h ⊢
  rw [hsaved, hhistory, Run.remember]
  split
  next hskip => rw [if_neg (fun hc => hc.2 hskip), h]
  next hsend =>
    rw [Source.save]
    split
    next hcap =>
      rw [if_pos ⟨hcap, hsend⟩, HistoryBuffer.capacity_push, List.length_append,
        List.length_singleton]
      show (if r.source.history.size < r.source.history.capacity then _ else _) = _
      split
      · omega
      · omega
    next hcap => rw [if_neg (fun hc => hcap hc.1), h]

theorem Run.Filled.step {r : Run} (h : r.Filled) (a : Action) : (r.step a).Filled := by
  cases a with
  | makeNewStream configuration => exact filled_cleared rfl rfl
  | resizeHistory n hn => exact filled_cleared rfl rfl
  | invalidate n hn => exact filled_cleared rfl rfl
  | control packetSize binary redundancy => exact h
  | setSinks sinks => exact h
  | sendXrun =>
    refine h.sent (SentBlock.set r.source.xrunPacket [] 0) rfl ?_
    show r.source.sendXrun.1.history = _
    unfold Source.sendXrun
    split
    · rfl
    · rfl
  | sendBlock b =>
    refine h.sent (SentBlock.set (r.source.blockPacket b) b.content
      (maxpacketsize r.source.packetSize r.source.binary)) rfl ?_
    show (r.source.sendBlock b).1.history = _
    unfold Source.sendBlock
    split
    · rfl
    · rfl
  | resendData =>
    have hhistory : r.source.resendData.1.history = r.source.history := by
      unfold Source.resendData
      split
      · rfl
      · rfl
    rw [Run.Filled] at h ⊢
    show r.source.resendData.1.history.size =
      min r.saved.length r.source.resendData.1.history.capacity
    rw [hhistory, h]

theorem filled_run {r : Run} (h : r.Filled) (as : List Action) : (as.foldl Run.step r).Filled := by
  induction as generalizing r with
  | nil => exact h
  | cons a as ih => exact ih (h.step a)

/-- The numbers of the blocks that are kept have not wrapped around: the last of them is
large enough for all of them. -/
def Run.Unwrapped (r : Run) : Prop :=
  ∀ o, r.saved.getLast? = some o → (r.lastSaved.length : Int) ≤ o.packet.sequence + 1

theorem RunInv.noWrap_iff {r : Run} (h : RunInv r) (hfilled : r.Filled) :
    r.NoWrap ↔ r.Unwrapped := by
  obtain ⟨q, hq, -⟩ := h.order
  rw [Run.NoWrap, hfilled.kept, Run.Unwrapped]
  have hcap := h.capacity
  have hlen : r.lastSaved.length = min r.saved.length r.source.history.capacity := by
    rw [Run.lastSaved, List.length_drop]
    omega
  -- consecutive numbers from that of the oldest block on
  have hseq : ∀ i (hi : i < r.lastSaved.length), r.lastSaved[i].packet.sequence =
      (((q + (r.saved.length - r.lastSaved.length) + i) % 2147483647 : Nat) : Int) := by
    intro i hi
    have hget : r.saved[r.saved.length - r.lastSaved.length + i]? = some r.lastSaved[i] := by
      rw [hlen, ← List.getElem?_drop]
      exact List.getElem?_eq_getElem hi
    rw [hq _ _ hget, Nat.add_assoc]
  constructor
  · intro hasc o ho
    have hlast : r.saved ≠ [] := by
      intro hnil
      rw [hnil] at ho
      cases ho
    have hpos := List.length_pos_iff.mpr hlast
    by_cases hzero : r.lastSaved.length = 0
    · have hnumber := hq (r.saved.length - 1) o (by rw [← List.getLast?_eq_getElem?, ho])
      omega
    · -- from the first kept number to the last one it is as many steps as blocks
      have hnumber := hq (r.saved.length - 1) o (by rw [← List.getLast?_eq_getElem?, ho])
      have hfirst := hseq 0 (by omega)
      by_cases hone : r.lastSaved.length = 1
      · omega
      · have hlt := List.pairwise_iff_getElem.mp hasc 0 (r.lastSaved.length - 1) (by omega)
          (by omega) (by omega)
        rw [hseq 0 (by omega), hseq (r.lastSaved.length - 1) (by omega)] at hlt
        omega
  · intro hunwrapped
    rw [List.pairwise_iff_getElem]
    intro i j hi hj hij
    obtain ⟨o, ho⟩ : ∃ o, r.saved.getLast? = some o := by
      cases hlast : r.saved.getLast? with
      | none =>
        rw [List.getLast?_eq_none_iff] at hlast
        rw [hlast, List.length_nil] at hlen
        omega
      | some o => exact ⟨o, rfl⟩
    have hbound := hunwrapped o ho
    rw [hq (r.saved.length - 1) o (by rw [← List.getLast?_eq_getElem?, ho])] at hbound
    rw [hseq i hi, hseq j hj]
    omega

/-! ### What is found -/

/-- What `find` should return: the block with the number among those that were saved last. -/
def Run.lookup (r : Run) (seq : Int) : Option SentBlock :=
  (r.lastSaved.find? fun o => decide (o.packet.sequence = seq)).map (·.stored)

/-- While the numbers ascend, `find` is exact. -/
theorem RunInv.find_exact {r : Run} (h : RunInv r) (hfilled : r.Filled) (hw : r.NoWrap)
    (seq : Int) : r.source.history.find seq = r.lookup seq := by
  cases hfound : r.lookup seq with
  | some b =>
    obtain ⟨o, ho, rfl⟩ := Option.map_eq_some_iff.mp hfound
    have hmem := List.mem_of_find?_eq_some ho
    have hseq := List.find?_some ho
    rw [decide_eq_true_eq] at hseq
    rw [← hfilled.kept] at hmem
    rw [← hseq, h.find_kept hw hmem]
  | none =>
    rw [Run.lookup, Option.map_eq_none_iff, List.find?_eq_none] at hfound
    cases hfind : r.source.history.find seq with
    | none => rfl
    | some b =>
      have hcap : 0 < r.source.history.capacity := by
        by_contra hc
        have hzero : r.source.history.size = 0 := by
          rw [hfilled]
          omega
        rw [HistoryBuffer.find, hzero, if_neg (Nat.lt_irrefl 0)] at hfind
        cases hfind
      obtain ⟨hmem, hseq⟩ := HistoryBuffer.find_some (h.keeps hcap).2 hfind
      obtain ⟨o, ho, rfl⟩ := List.mem_map.mp hmem
      rw [hfilled.kept] at ho
      exact absurd (decide_eq_true hseq) (hfound o ho)

/-- Behind a wrap, a block that is kept is not found. -/
theorem RunInv.find_exact_iff {r : Run} (h : RunInv r) (hfilled : r.Filled) :
    (∀ seq, r.source.history.find seq = r.lookup seq) ↔ r.Unwrapped := by
  rw [← h.noWrap_iff hfilled]
  constructor
  · intro hexact
    by_contra hw
    obtain ⟨hpos, o, ho, hlt⟩ := h.below_oldest hw
    have hnone := hexact o.packet.sequence
    rw [h.find_below hpos hlt] at hnone
    rw [hfilled.kept] at ho
    have hmissing := List.find?_eq_none.mp (Option.map_eq_none_iff.mp hnone.symm) o ho
    exact hmissing (decide_eq_true rfl)
  · intro hw
    exact h.find_exact hfilled hw

/-- **When the history buffer finds what it has**: in every run, `find` returns for every number
the block with that number among the blocks saved last, and nothing if there is none, if and
only if the numbers of these blocks have not wrapped around. -/
theorem history_find_iff (id : Int) (hid : 0 ≤ id ∧ id < 2147483648) (packetSize : PacketSize)
    (binary : Bool) (redundancy : Nat) (as : List Action) :
    let r := as.foldl Run.step (Run.start id hid packetSize binary redundancy)
    (∀ seq, r.source.history.find seq = r.lookup seq) ↔ r.Unwrapped :=
  (run_inv (runInv_start id hid packetSize binary redundancy) as).find_exact_iff
    (filled_run (filled_cleared rfl rfl) as)

/-- A source with a history buffer of two blocks has sent three empty blocks. -/
theorem find_two_of_three :
    let sink : SinkDesc := ⟨1, 5, 0, [], by decide, by decide, by decide⟩
    let r := [Action.setSinks [sink], .resizeHistory 2 (by decide), .makeNewStream none,
      .sendXrun, .sendXrun, .sendXrun].foldl Run.step
        (Run.start 2 (by decide) ⟨146, by decide, by decide⟩ true 1)
    r.lastSaved.map (·.packet.sequence) = [1, 2] ∧
      ∀ seq, r.source.history.find seq = r.lookup seq := by
  intro sink r
  refine ⟨by decide +kernel, ?_⟩
  refine (history_find_iff 2 (by decide) ⟨146, by decide, by decide⟩ true 1 _).mpr ?_
  intro o ho
  have hlast : r.saved.getLast?.map (·.packet.sequence) = some 2 := by decide +kernel
  have hlen : r.lastSaved.length = 2 := by decide +kernel
  have hnumber : o.packet.sequence = 2 := by
    rw [show r.saved.getLast? = some o from ho] at hlast
    exact Option.some.inj hlast
  rw [hlen, hnumber]
  decide

/-- Empty blocks are sent one after the other. -/
theorem sendXruns (n : Nat) {r : Run} (hsinks : r.source.cachedSinks ≠ [])
    (hcap : 0 < r.source.history.capacity) (hseq : r.source.sequence = 0) :
    let r' := (List.replicate n Action.sendXrun).foldl Run.step r
    r'.source.cachedSinks ≠ [] ∧ r'.source.history.capacity = r.source.history.capacity ∧
      r'.source.sequence = ((n % 2147483647 : Nat) : Int) ∧
      r'.saved.length = r.saved.length + n := by
  induction n with
  | zero => exact ⟨hsinks, rfl, hseq, rfl⟩
  | succ n ih =>
    rw [List.replicate_succ', List.foldl_append]
    obtain ⟨h1, h2, h3, h4⟩ := ih
    revert h1 h2 h3 h4
    generalize (List.replicate n Action.sendXrun).foldl Run.step r = t
    intro h1 h2 h3 h4
    have hvalid : ¬ (t.source.sequence = invalidStream ∨ t.source.cachedSinks = []) := by
      rw [h3, invalidStream]
      rintro (hbad | hbad)
      · omega
      · exact h1 hbad
    have hsent : t.source.sendXrun.1 = { t.source with
        sequence := nextSequence t.source.sequence
        absoluteSamplePosition := t.source.advance t.source.absoluteSamplePosition
        history := t.source.save (SentBlock.set t.source.xrunPacket [] 0) } := by
      rw [Source.sendXrun, if_neg hvalid]
    have hsave : t.source.save (SentBlock.set t.source.xrunPacket [] 0) =
        t.source.history.push (SentBlock.set t.source.xrunPacket [] 0) := by
      rw [Source.save, if_pos (by omega)]
    show t.source.sendXrun.1.cachedSinks ≠ [] ∧ t.source.sendXrun.1.history.capacity = _ ∧
      t.source.sendXrun.1.sequence = _ ∧ (t.remember t.source.originalXrun).length = _
    rw [hsent, hsave, Run.remember, if_pos ⟨by omega, hvalid⟩]
    refine ⟨h1, ?_, nextSequence_mod h3, ?_⟩
    · rw [← h2]
      exact HistoryBuffer.capacity_push ..
    · rw [List.length_append, List.length_singleton, h4, Nat.add_assoc]

/-- The actions that give a source a history buffer of two blocks and a new stream, and `n`
empty blocks. -/
def wrapActions (n : Nat) : List Action :=
  [.setSinks [⟨1, 5, 0, [], by decide, by decide, by decide⟩], .resizeHistory 2 (by decide),
    .makeNewStream none] ++ List.replicate n .sendXrun

def wrapRun (n : Nat) : Run :=
  (wrapActions n).foldl Run.step (Run.start 2 (by decide) ⟨146, by decide, by decide⟩ true 1)

/-- The last block has number 0, and the one before it is still kept. -/
theorem wrapRun_inexact {n : Nat} (hn : 2 ≤ n) (hmod : n % 2147483647 = 1) :
    ¬ ∀ seq, (wrapRun n).source.history.find seq = (wrapRun n).lookup seq := by
  have hinv : RunInv (wrapRun n) :=
    run_inv (runInv_start 2 (by decide) ⟨146, by decide, by decide⟩ true 1) _
  have hsends := sendXruns n
    (r := (wrapActions 0).foldl Run.step
      (Run.start 2 (by decide) ⟨146, by decide, by decide⟩ true 1))
    (by decide) (by decide) rfl
  have hrun : (List.replicate n Action.sendXrun).foldl Run.step ((wrapActions 0).foldl Run.step
      (Run.start 2 (by decide) ⟨146, by decide, by decide⟩ true 1)) = wrapRun n := by
    rw [← List.foldl_append]
    rfl
  rw [hrun] at hsends
  obtain ⟨-, hcap, hnext, hlen⟩ := hsends
  have hcap' : (wrapRun n).source.history.capacity = 2 := hcap
  have hlen' : (wrapRun n).saved.length = n := hlen.trans (Nat.zero_add n)
  obtain ⟨q, hq, hsequence⟩ := hinv.order
  have hne : (wrapRun n).saved ≠ [] := by
    intro hnil
    rw [hnil, List.length_nil] at hlen'
    omega
  have hseq := hsequence.resolve_left hne
  rw [hnext, hlen'] at hseq
  rw [hinv.find_exact_iff (filled_run (filled_cleared rfl rfl) _)]
  intro hunwrapped
  have hlast := List.getLast?_eq_some_getLast hne
  have hbound := hunwrapped _ hlast
  rw [List.getLast?_eq_getElem?] at hlast
  rw [hq _ _ hlast, hlen', Run.lastSaved, List.length_drop, hlen', hcap'] at hbound
  omega

/-- After the source has sent `2 ^ 31` empty blocks, the history buffer has the blocks
`INT32_MAX - 1` and 0, and does not find both. -/
theorem find_after_wrap :
    ¬ ∀ seq, (wrapRun 2147483648).source.history.find seq = (wrapRun 2147483648).lookup seq :=
  wrapRun_inexact (by omega) (by omega)

/-! ## The jitter buffer -/

namespace JitterBuffer

/-- The slots that a linear search looks at. -/
def scanned (b : JitterBuffer) (seq : Int) : List Nat → List Nat
  | [] => []
  | i :: is => i :: if (b.slot i).sequence = seq then [] else b.scanned seq is

/-- The slots that `dofind` looks at. -/
def doFindSlots (b : JitterBuffer) (seq : Int) (first last : Nat) : List Nat :=
  let p := fun i => decide ((b.slot i).sequence < seq)
  let result := lowerBound p (last - first) first (last - first)
  probes p (last - first) first (last - first) ++ if result ≠ last then [result] else []

/-- The slots that `find` looks at. -/
def readSlots (b : JitterBuffer) (seq : Int) : List Nat :=
  if b.empty then []
  else b.backIndex ::
    if (b.slot b.backIndex).sequence = seq then []
    else if b.size < searchThreshold then
      if b.head > b.tail then b.scanned seq (List.range' b.tail (b.head - b.tail))
      else b.scanned seq (List.range' 0 b.head) ++
        if (b.scan seq 0 b.head).isSome then []
        else b.scanned seq (List.range' b.tail (b.capacity - b.tail))
    else if b.head > b.tail then b.doFindSlots seq b.tail b.head
    else b.doFindSlots seq 0 b.head ++
      if (b.doFind seq 0 b.head).isSome then []
      else b.doFindSlots seq b.tail (b.capacity + b.spare.length)

/-- The plain scan, from the oldest block to the newest. -/
def plainFind (b : JitterBuffer) (seq : Int) : Option Nat :=
  b.indices.find? fun i => decide ((b.slot i).sequence = seq)

/-- What `find` should do: the same as a plain scan, inside of the vector. -/
def FindExact (b : JitterBuffer) : Prop :=
  ∀ seq : Int, -2147483648 ≤ seq → seq ≤ 2147483647 →
    b.find seq = b.plainFind seq ∧ ∀ i ∈ b.readSlots seq, i < b.capacity

/-- The search does not get behind the vector: it is short, or the blocks are in one piece, or
nothing is there. -/
def SearchFits (b : JitterBuffer) : Prop :=
  b.size < searchThreshold ∨ b.tail < b.head ∨ b.spare = []

instance (b : JitterBuffer) : Decidable b.SearchFits := inferInstanceAs (Decidable (_ ∨ _ ∨ _))

/-- What can happen to a jitter buffer. -/
inductive Action
  | resize (n : Nat) (spare : List ReceivedBlock)
  | pushPlaceholder (seq : Int)
  | pushBlock (d : DataPacket)
  | pop

def step (b : JitterBuffer) : Action → JitterBuffer
  | .resize n spare => b.resize n spare
  | .pushPlaceholder seq => b.emplace seq (·.initPlaceholder seq)
  | .pushBlock d => b.emplace d.sequence (·.init d)
  | .pop => b.pop

/-- The number may be pushed: there is room, and it follows the last one. `INT32_MIN` is the
sentinel. -/
def MayPush (b : JitterBuffer) (seq : Int) : Prop :=
  b.full = false ∧ (b.lastPushed = sentinel ∨ seq - b.lastPushed = 1) ∧
    sentinel < seq ∧ seq ≤ 2147483647

instance (b : JitterBuffer) (seq : Int) : Decidable (b.MayPush seq) :=
  inferInstanceAs (Decidable (_ ∧ _ ∧ _ ∧ _))

/-- The assertions of `push` and `pop`. -/
def Allowed (b : JitterBuffer) : Action → Prop
  | .resize _ _ => True
  | .pushPlaceholder seq => b.MayPush seq
  | .pushBlock d => b.MayPush d.sequence
  | .pop => b.empty = false

instance decidableAllowed (b : JitterBuffer) : ∀ a, Decidable (b.Allowed a)
  | .resize _ _ => .isTrue trivial
  | .pushPlaceholder seq => inferInstanceAs (Decidable (b.MayPush seq))
  | .pushBlock d => inferInstanceAs (Decidable (b.MayPush d.sequence))
  | .pop => inferInstanceAs (Decidable (b.empty = false))

/-! ### Consecutive numbers -/

/-- The ring holds blocks with consecutive numbers. -/
structure Queue (b : JitterBuffer) (bs fs : List ReceivedBlock) : Prop where
  ring : b.Ring bs fs
  sequence : ∀ i (hi : i < bs.length), bs[i].sequence = b.lastPushed - bs.length + 1 + i
  range : bs ≠ [] → sentinel < b.lastPushed - bs.length + 1 ∧ b.lastPushed ≤ 2147483647

section

variable {b : JitterBuffer} {bs fs : List ReceivedBlock}

theorem queue_resize {n : Nat} (hn : 0 < n) (b : JitterBuffer) (spare : List ReceivedBlock) :
    (b.resize n spare).Queue [] (b.resize n spare).data := by
  have hcap : (b.resize n spare).data.length = n := by
    simp only [resize, List.length_append, List.length_take, List.length_replicate]
    omega
  refine ⟨⟨⟨Nat.le_refl _, ?_, ?_⟩, Nat.zero_add _, rfl, ?_⟩, ?_, fun hne => absurd rfl hne⟩
  · show 0 < (b.resize n spare).data.length
    omega
  · intro i hi
    rw [List.nil_append] at hi ⊢
    show (b.resize n spare).data[(0 + i) % _]? = _
    rw [Nat.zero_add, Nat.mod_eq_of_lt hi]
  · exact (Nat.zero_mod _).symm
  · intro i hi
    exact absurd hi (Nat.not_lt_zero i)

theorem Queue.emplace (h : b.Queue bs fs) {seq : Int} (hmay : b.MayPush seq)
    {f : ReceivedBlock → ReceivedBlock} (hf : ∀ x, (f x).sequence = seq) :
    ∃ bs' fs', (b.emplace seq f).Queue bs' fs' := by
  obtain ⟨hroom, hnext, hlow, hhigh⟩ := hmay
  have htotal := h.ring.total
  have hsize := h.ring.size
  rw [full, decide_eq_false_iff_not] at hroom
  have hpushed : (b.emplace seq f).lastPushed = seq := by
    unfold JitterBuffer.emplace JitterBuffer.modify
    split
    · rfl
    · rfl
  cases fs with
  | nil =>
    rw [List.length_nil] at htotal
    omega
  | cons x fs =>
    -- behind blocks there are no sentinels, so the number follows the last one
    have hfollows : bs = [] ∨ seq = b.lastPushed + 1 := by
      by_cases hnil : bs = []
      · exact Or.inl hnil
      · right
        have hrange := h.range hnil
        have hpos := List.length_pos_iff.mpr hnil
        rcases hnext with hnext | hnext
        · omega
        · omega
    refine ⟨bs ++ [f x], fs, h.ring.emplace seq f, ?_, ?_⟩
    · intro i hi
      rw [hpushed, List.length_append, List.length_singleton]
      rw [List.length_append, List.length_singleton] at hi
      by_cases hlast : i < bs.length
      · rw [List.getElem_append_left hlast, h.sequence i hlast]
        rcases hfollows with rfl | hfollows
        · exact absurd hlast (Nat.not_lt_zero i)
        · omega
      · rw [List.getElem_append_right (by omega)]
        simp only [List.getElem_singleton, hf]
        omega
    · intro _
      rw [hpushed, List.length_append, List.length_singleton]
      rcases hfollows with rfl | hfollows
      · rw [List.length_nil]
        omega
      · by_cases hnil : bs = []
        · rw [hnil, List.length_nil]
          omega
        · have hrange := h.range hnil
          omega

theorem Queue.pop {x : ReceivedBlock} (h : b.Queue (x :: bs) fs) :
    b.pop.Queue bs (fs ++ [x.clear]) := by
  have hpushed : b.pop.lastPushed = b.lastPushed := rfl
  have hrange := h.range (List.cons_ne_nil x bs)
  rw [List.length_cons] at hrange
  refine ⟨h.ring.pop, ?_, ?_⟩
  · intro i hi
    have hseq := h.sequence (i + 1) (by rw [List.length_cons]; omega)
    simp only [List.getElem_cons_succ, List.length_cons] at hseq
    rw [hpushed, hseq]
    omega
  · intro _
    rw [hpushed]
    omega

/-- The invariant of all runs. Before the first `resize` there is no room at all. -/
def Lined (b : JitterBuffer) : Prop :=
  (b.capacity = 0 ∧ b.size = 0) ∨ ∃ bs fs, b.Queue bs fs

theorem Lined.step (h : b.Lined) {a : Action} (ha : b.Allowed a) : (b.step a).Lined := by
  have hpush : ∀ (seq : Int) (f : ReceivedBlock → ReceivedBlock), b.MayPush seq →
      (∀ x, (f x).sequence = seq) → (b.emplace seq f).Lined := by
    intro seq f hmay hf
    rcases h with ⟨hcap, hsize⟩ | ⟨bs, fs, hq⟩
    · have hroom := hmay.1
      rw [full, hcap, hsize] at hroom
      cases hroom
    · exact Or.inr (hq.emplace hmay hf)
  cases a with
  | resize n spare =>
    by_cases hn : 0 < n
    · exact Or.inr ⟨[], _, queue_resize hn b spare⟩
    · refine Or.inl ⟨?_, rfl⟩
      show (b.resize n spare).data.length = 0
      simp only [resize, List.length_append, List.length_take, List.length_replicate]
      omega
  | pushPlaceholder seq => exact hpush seq _ ha (fun _ => rfl)
  | pushBlock d => exact hpush d.sequence _ ha (fun _ => rfl)
  | pop =>
    rw [Allowed, empty, decide_eq_false_iff_not] at ha
    rcases h with ⟨-, hsize⟩ | ⟨bs, fs, hq⟩
    · exact absurd hsize ha
    · cases bs with
      | nil => exact absurd hq.ring.size ha
      | cons x bs => exact Or.inr ⟨bs, _, hq.pop⟩

/-! ### The search is a plain scan -/

/-- The blocks from the tail on. -/
theorem Queue.slot_ge (h : b.Queue bs fs) :
    ∀ j, b.tail ≤ j → j < b.capacity → j - b.tail < bs.length →
      (b.slot j).sequence = b.lastPushed - bs.length + 1 + (j - b.tail : Nat) := by
  intro j hge hcap hlt
  have hat := h.ring.slot_at (i := j - b.tail) (by rw [List.length_append]; omega)
  rw [List.getElem_append_left hlt, Nat.add_sub_cancel' hge, Nat.mod_eq_of_lt hcap] at hat
  rw [hat, h.sequence _ hlt]

/-- The blocks in front of the tail, behind the end of the vector. -/
theorem Queue.slot_lt (h : b.Queue bs fs) :
    ∀ j, j < b.tail → j + b.capacity - b.tail < bs.length →
      (b.slot j).sequence =
        b.lastPushed - bs.length + 1 + (j + b.capacity - b.tail : Nat) := by
  intro j hge hlt
  have hstart : b.tail < b.capacity := h.ring.holds.start
  have hat := h.ring.slot_at (i := j + b.capacity - b.tail) (by rw [List.length_append]; omega)
  rw [List.getElem_append_left hlt,
    show b.tail + (j + b.capacity - b.tail) = j + b.capacity by omega, Nat.add_mod_right,
    Nat.mod_eq_of_lt (by omega)] at hat
  rw [hat, h.sequence _ hlt]

theorem Queue.slot_at (h : b.Queue bs fs) {i : Nat} (hi : i < bs.length) :
    (b.slot ((b.tail + i) % b.capacity)).sequence = b.lastPushed - bs.length + 1 + i := by
  rw [h.ring.slot_at (by rw [List.length_append]; omega), List.getElem_append_left hi,
    h.sequence i hi]

theorem scan_isSome {seq : Int} {first last j : Nat} (hfirst : first ≤ j) (hlast : j < last)
    (hseq : (b.slot j).sequence = seq) : (b.scan seq first last).isSome := by
  rw [scan, List.find?_isSome]
  exact ⟨j, List.mem_range'_1.mpr ⟨hfirst, by omega⟩, decide_eq_true hseq⟩

/-- In ascending slots the binary search finds what is there. -/
theorem doFind_isSome {seq : Int} {first last j : Nat} (hfirst : first ≤ j) (hlast : j < last)
    (hseq : (b.slot j).sequence = seq)
    (hasc : ∀ i, first ≤ i → i < last → ((b.slot i).sequence < seq ↔ i < j)) :
    (b.doFind seq first last).isSome := by
  have hresult := @lowerBound_eq (fun i => decide ((b.slot i).sequence < seq)) (last - first)
    first (last - first) j (Nat.le_refl _) (by omega) (fun i h1 h2 => by
      rw [decide_eq_true_iff]
      exact hasc i h1 (by omega))
  unfold doFind
  simp only [hresult]
  rw [if_pos ⟨by omega, hseq⟩]
  rfl

/-- What is in the buffer is found. -/
theorem Queue.find_isSome (h : b.Queue bs fs) (hfits : b.SearchFits) :
    ∀ i < bs.length, (b.find (b.lastPushed - bs.length + 1 + i)).isSome := by
  intro i hi
  have hstart : b.tail < b.capacity := h.ring.holds.start
  have htotal := h.ring.total
  have hsize := h.ring.size
  have hat := h.slot_at hi
  unfold find
  rw [if_neg (by rw [empty, decide_eq_true_iff]; omega)]
  split
  next => rfl
  next hback =>
    rcases h.ring.head_cases (by omega) with ⟨hlt, hhead, hcap⟩ | ⟨hle, hhead⟩
    · -- the blocks are in one piece
      have hslot : (b.tail + i) % b.capacity = b.tail + i := Nat.mod_eq_of_lt (by omega)
      rw [hslot] at hat
      rw [if_pos hlt, if_pos hlt]
      split
      · exact scan_isSome (by omega) (by omega) hat
      · refine doFind_isSome (by omega) (by omega) hat ?_
        intro k h1 h2
        rw [h.slot_ge k h1 (by omega) (by omega)]
        omega
    · rw [if_neg (Nat.not_lt.mpr hle), if_neg (Nat.not_lt.mpr hle)]
      by_cases hend : b.tail + i < b.capacity
      · -- in the piece up to the end of the vector
        have hslot : (b.tail + i) % b.capacity = b.tail + i := Nat.mod_eq_of_lt hend
        rw [hslot] at hat
        split
        · rw [Option.isSome_or, scan_isSome (by omega) hend hat, Bool.or_true]
        next hlarge =>
          have hspare : b.spare = [] := by
            rcases hfits with hc | hc | hc
            · exact absurd hc hlarge
            · omega
            · exact hc
          rw [hspare, List.length_nil, Nat.add_zero, Option.isSome_or,
            doFind_isSome (j := b.tail + i) (by omega) hend hat, Bool.or_true]
          intro k h1 h2
          rw [h.slot_ge k h1 h2 (by omega)]
          omega
      · -- in the piece from the start of the vector
        have hslot : (b.tail + i) % b.capacity = b.tail + i - b.capacity := by
          rw [Nat.mod_eq_sub_mod (by omega), Nat.mod_eq_of_lt (by omega)]
        rw [hslot] at hat
        split
        · rw [Option.isSome_or, scan_isSome (Nat.zero_le _) (by omega) hat, Bool.true_or]
        · rw [Option.isSome_or, doFind_isSome (Nat.zero_le _) (by omega) hat, Bool.true_or]
          intro k h1 h2
          rw [h.slot_lt k (by omega) (by omega)]
          omega

/-- A plain scan finds the block with the number. -/
theorem Queue.plainFind_iff (h : b.Queue bs fs) {seq : Int} {j : Nat} :
    b.plainFind seq = some j ↔
      (∃ i < bs.length, j = (b.tail + i) % b.capacity) ∧ (b.slot j).sequence = seq := by
  have hmem : ∀ k, k ∈ b.indices ↔ ∃ i < bs.length, k = (b.tail + i) % b.capacity := by
    intro k
    rw [h.ring.indices_eq, List.mem_map]
    constructor
    · rintro ⟨i, hi, rfl⟩
      exact ⟨i, List.mem_range.mp hi, rfl⟩
    · rintro ⟨i, hi, rfl⟩
      exact ⟨i, List.mem_range.mpr hi, rfl⟩
  rw [plainFind]
  constructor
  · intro hf
    exact ⟨(hmem j).mp (List.mem_of_find?_eq_some hf), by simpa using List.find?_some hf⟩
  · rintro ⟨⟨i, hi, rfl⟩, hseq⟩
    have hsome : (b.indices.find? fun i => decide ((b.slot i).sequence = seq)).isSome :=
      List.find?_isSome.mpr ⟨_, (hmem _).mpr ⟨i, hi, rfl⟩, decide_eq_true hseq⟩
    obtain ⟨k, hk⟩ := Option.isSome_iff_exists.mp hsome
    obtain ⟨i', hi', rfl⟩ := (hmem k).mp (List.mem_of_find?_eq_some hk)
    have hseq' : (b.slot ((b.tail + i') % b.capacity)).sequence = seq := by
      simpa using List.find?_some hk
    -- two blocks with one number are at one position
    rw [h.slot_at hi] at hseq
    rw [h.slot_at hi'] at hseq'
    have hsame : i' = i := by omega
    rw [hk, hsame]

theorem Queue.find_eq (h : b.Queue bs fs) (hfits : b.SearchFits) :
    ∀ seq, b.find seq = b.plainFind seq := by
  intro seq
  cases hf : b.find seq with
  | some j =>
    obtain ⟨hseq, hat⟩ := h.ring.find_some hf
    refine (h.plainFind_iff.mpr ⟨?_, hseq⟩).symm
    rcases hat with hat | ⟨hcap, hlarge, hwrap, hspare⟩
    · exact hat
    · exfalso
      rcases hfits with hc | hc | hc
      · omega
      · omega
      · rw [hc, List.length_nil] at hspare
        omega
  | none =>
    cases hp : b.plainFind seq with
    | none => rfl
    | some j =>
      obtain ⟨⟨i, hi, rfl⟩, hseq⟩ := h.plainFind_iff.mp hp
      have hsome := h.find_isSome hfits i hi
      rw [← h.slot_at hi, hseq, hf] at hsome
      cases hsome

/-! ### What the search looks at -/

theorem scanned_subset (seq : Int) : ∀ is : List Nat, ∀ i ∈ b.scanned seq is, i ∈ is := by
  intro is
  induction is with
  | nil =>
    intro i hi
    cases hi
  | cons k is ih =>
    intro i hi
    rw [scanned] at hi
    rcases List.mem_cons.mp hi with rfl | hi
    · exact List.mem_cons_self ..
    · split at hi
      · cases hi
      · exact List.mem_cons_of_mem _ (ih i hi)

theorem mem_doFindSlots {seq : Int} {first last i : Nat} (hle : first ≤ last)
    (hi : i ∈ b.doFindSlots seq first last) : i < last := by
  rw [doFindSlots] at hi
  rcases List.mem_append.mp hi with hi | hi
  · have := mem_probes _ _ hi
    omega
  · have hresult := @lowerBound_mem (fun i => decide ((b.slot i).sequence < seq))
      (last - first) first (last - first) (Nat.le_refl _)
    split at hi
    next hne =>
      rw [List.mem_singleton] at hi
      omega
    next => cases hi

theorem Queue.readSlots_lt (h : b.Queue bs fs) (hfits : b.SearchFits) :
    ∀ seq, ∀ i ∈ b.readSlots seq, i < b.capacity := by
  intro seq i hi
  have hstart : b.tail < b.capacity := h.ring.holds.start
  have htotal := h.ring.total
  have hsize := h.ring.size
  rw [readSlots] at hi
  split at hi
  next => cases hi
  next hne =>
    rw [empty, decide_eq_true_iff] at hne
    have hpieces := h.ring.head_cases (by omega)
    rcases List.mem_cons.mp hi with rfl | hi
    · rw [h.ring.backIndex_eq (by omega)]
      exact Nat.mod_lt _ h.ring.capacity_pos
    · split at hi
      next => cases hi
      next =>
        split at hi
        next =>
          split at hi
          next hlt =>
            have := List.mem_range'_1.mp (scanned_subset _ _ i hi)
            omega
          next hle =>
            rcases List.mem_append.mp hi with hi | hi
            · have := List.mem_range'_1.mp (scanned_subset _ _ i hi)
              omega
            · split at hi
              next => cases hi
              next =>
                have := List.mem_range'_1.mp (scanned_subset _ _ i hi)
                omega
        next hlarge =>
          split at hi
          next hlt =>
            have := mem_doFindSlots (Nat.le_of_lt hlt) hi
            omega
          next hle =>
            rcases List.mem_append.mp hi with hi | hi
            · have := mem_doFindSlots (Nat.zero_le _) hi
              omega
            · split at hi
              next => cases hi
              next =>
                have := mem_doFindSlots (by omega) hi
                rcases hfits with hc | hc | hc
                · exact absurd hc hlarge
                · exact absurd hc hle
                · rw [hc, List.length_nil] at this
                  omega

/-- No block of the buffer has the next number. -/
theorem Queue.slot_lt_next (h : b.Queue bs fs) {i : Nat} (hi : i < bs.length) :
    (b.slot ((b.tail + i) % b.capacity)).sequence < b.lastPushed + 1 := by
  have hsize := h.ring.size
  rw [h.slot_at hi]
  omega

theorem Queue.doFind_next (h : b.Queue bs fs) (hpos : 0 < bs.length) (hle : ¬ b.head > b.tail) :
    b.doFind (b.lastPushed + 1) 0 b.head = none := by
  cases hf : b.doFind (b.lastPushed + 1) 0 b.head with
  | none => rfl
  | some j =>
    obtain ⟨-, hj, hseq⟩ := doFind_some (Nat.zero_le _) hf
    obtain ⟨i, hi, rfl⟩ := h.ring.occupied hpos (by rw [if_neg hle]; exact Or.inl hj)
    exact absurd hseq (Int.ne_of_lt (h.slot_lt_next hi))

/-- The search for the next number gets behind the vector. -/
theorem Queue.readSlots_ge (h : b.Queue bs fs) (hfits : ¬ b.SearchFits) :
    ∃ i ∈ b.readSlots (b.lastPushed + 1), b.capacity ≤ i := by
  have hstart : b.tail < b.capacity := h.ring.holds.start
  have htotal := h.ring.total
  have hsize := h.ring.size
  simp only [SearchFits, not_or] at hfits
  obtain ⟨hlarge, hle, hspare⟩ := hfits
  have hspare' := List.length_pos_iff.mpr hspare
  have hpos : 0 < bs.length := by
    rw [searchThreshold] at hlarge
    omega
  have hback : (b.slot b.backIndex).sequence ≠ b.lastPushed + 1 := by
    rw [h.ring.backIndex_eq hpos]
    exact Int.ne_of_lt (h.slot_lt_next (by omega))
  have hslots : b.readSlots (b.lastPushed + 1) =
      b.backIndex :: (b.doFindSlots (b.lastPushed + 1) 0 b.head ++
        b.doFindSlots (b.lastPushed + 1) b.tail (b.capacity + b.spare.length)) := by
    rw [readSlots, if_neg (by rw [empty, decide_eq_true_iff]; omega), if_neg hback,
      if_neg hlarge, if_neg hle, h.doFind_next hpos hle,
      if_neg (by rw [Option.isSome_none]; exact Bool.noConfusion)]
  rw [hslots]
  -- from the tail on, all blocks of the vector have smaller numbers
  have hresult := @lowerBound_ge (fun i => decide ((b.slot i).sequence < b.lastPushed + 1))
    (b.capacity + b.spare.length - b.tail) b.tail (b.capacity + b.spare.length - b.tail)
    b.capacity (Nat.le_refl _) (by omega) (fun i h1 h2 => by
      obtain ⟨k, hk, rfl⟩ := h.ring.occupied hpos (by rw [if_neg hle]; exact Or.inr ⟨h1, h2⟩)
      exact decide_eq_true (h.slot_lt_next hk))
  have hprobed := @lowerBound_probed (fun i => decide ((b.slot i).sequence < b.lastPushed + 1))
    (b.capacity + b.spare.length - b.tail) b.tail (b.capacity + b.spare.length - b.tail) (by omega)
  have hmem : ∀ i ∈ b.doFindSlots (b.lastPushed + 1) b.tail (b.capacity + b.spare.length),
      i ∈ b.backIndex :: (b.doFindSlots (b.lastPushed + 1) 0 b.head ++
        b.doFindSlots (b.lastPushed + 1) b.tail (b.capacity + b.spare.length)) :=
    fun i hi => List.mem_cons_of_mem _ (List.mem_append_right _ hi)
  by_cases hend : lowerBound (fun i => decide ((b.slot i).sequence < b.lastPushed + 1))
      (b.capacity + b.spare.length - b.tail) b.tail (b.capacity + b.spare.length - b.tail) =
      b.capacity + b.spare.length
  · exact ⟨_, hmem _ (List.mem_append_left _ hprobed), by omega⟩
  · refine ⟨_, hmem _ (List.mem_append_right _ ?_), hresult⟩
    rw [if_pos hend]
    exact List.mem_singleton_self _

end

/-- **`find` is a plain scan** that stays inside of the vector, in every run, exactly if the
search does not get to the capacity of the vector: with less than `searchThreshold` blocks,
with all blocks in one piece, or with a vector that is as large as its storage.
No stream has the number `INT32_MAX`. -/
theorem jitter_find_iff :
    ∀ as : List Action, StepsAll step Allowed {} as →
      ((as.foldl step {}).SearchFits → (as.foldl step {}).FindExact) ∧
        ((as.foldl step {}).FindExact →
          (as.foldl step {}).SearchFits ∨ (as.foldl step {}).lastPushed = 2147483647) := by
  intro as has
  have hlined := StepsAll.invariant (I := Lined) (fun _ _ h ha => h.step ha) (Or.inl ⟨rfl, rfl⟩)
    has as List.prefix_rfl
  revert hlined
  generalize as.foldl step {} = b
  intro hlined
  rcases hlined with ⟨hcap, hsize⟩ | ⟨bs, fs, hq⟩
  · have hempty : b.empty = true := by rw [empty, hsize]; rfl
    refine ⟨fun _ seq _ _ => ?_, fun _ => Or.inl (Or.inl ?_)⟩
    · rw [find, plainFind, indices, readSlots, if_pos hempty, if_pos hempty, if_pos hempty]
      exact ⟨rfl, fun i hi => by cases hi⟩
    · rw [hsize]
      decide
  · constructor
    · intro hfits seq _ _
      exact ⟨hq.find_eq hfits seq, hq.readSlots_lt hfits seq⟩
    · intro hexact
      by_cases hfits : b.SearchFits
      · exact Or.inl hfits
      · right
        by_contra hmax
        have hsize := hq.ring.size
        have hne : bs ≠ [] := by
          rintro rfl
          exact hfits (Or.inl (by rw [hsize]; decide))
        have hrange := hq.range hne
        have hpos := List.length_pos_iff.mpr hne
        obtain ⟨i, hi, hge⟩ := hq.readSlots_ge hfits
        have hlt := (hexact (b.lastPushed + 1) (by rw [sentinel] at hrange; omega)
          (by omega)).2 i hi
        omega

/-- A buffer for 20 blocks that was made smaller: the storage behind its 12 blocks is still
there. Seventeen blocks come in, and six go out. -/
def shrunk : List Action :=
  [.resize 20 [], .resize 12 (List.replicate 8 {})] ++
    (List.range 12).map (.pushPlaceholder ·) ++ List.replicate 6 .pop ++
    (List.range 5).map (.pushPlaceholder <| 12 + ·)

/-- The blocks 0 to 11, in a buffer of the same size from the start. -/
theorem find_in_fresh :
    ((Action.resize 12 [] :: (List.range 12).map (.pushPlaceholder ·)).foldl step {}).FindExact :=
  (jitter_find_iff _ (by decide +kernel)).1 (by decide +kernel)

/-- Block 9 is in the smaller buffer, and is not found. -/
theorem find_after_shrink :
    StepsAll step Allowed {} shrunk ∧ ¬ (shrunk.foldl step {}).FindExact := by
  refine ⟨by decide +kernel, fun hexact => ?_⟩
  have hmissed : (shrunk.foldl step {}).find 9 = none := by decide +kernel
  have hthere : (shrunk.foldl step {}).plainFind 9 = some 9 := by decide +kernel
  have hfind := (hexact 9 (by omega) (by omega)).1
  rw [hmissed, hthere] at hfind
  cases hfind

end JitterBuffer

end Aoo.Stream
