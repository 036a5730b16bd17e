import Aoo.Lib.Rounding
import Aoo.Stream.Slots
import Mathlib.Algebra.Order.Ring.Rat
import Mathlib.Data.List.Count

/-!
# The pace of requests

`check_missing_blocks` with its clock: a block is requested again when the resend interval has
passed, and a stream for wireless networks does not request what cannot arrive in time. Times
are doubles, so what is computed from them is rounded. With the decisions as an argument this is
`checkMissingBlocks` (`check_eq`).

A wireless stream should request a block at most once. Nothing but the interval keeps it from
asking again. **Main result** (`requested_once_iff`): in every run, every block is requested in
at most one call as long as it stays, exactly if no call comes to a block for which the interval
has passed since the request. The deadline is kept in all runs.
-/

namespace Aoo.Stream

open Lib

/-- What `check_missing_blocks` reads of the sink, and the round trip, which is loaded anew for
each block. -/
structure ResendInput where
  enabled : Bool
  limit : Int
  interval : ℚ
  elapsedTime : ℚ
  roundTripP95 : Nat → ℚ

/-- The test in `received_block::update`. -/
def ReceivedBlock.due (b : ReceivedBlock) (time interval : ℚ) : Bool :=
  !(decide (b.timestamp > 0) && decide (double (time - b.timestamp) < interval))

/-- The duration of a block in seconds, as a double. -/
def blockDuration (c : AooLowLatencyStreamConfiguration) : ℚ :=
  double (c.blockFrames.toNat / c.sampleRate.toNat)

theorem blockDuration_nonneg (c : AooLowLatencyStreamConfiguration) : 0 ≤ blockDuration c := by
  rw [blockDuration, double, ← binaryRound_zero 53]
  exact binaryRound_mono (by decide) le_rfl (by positivity)

namespace SourceDesc

/-- The stream has the profile for wireless networks. -/
def wireless (s : SourceDesc) : Bool :=
  s.lowLatency.any fun c => c.profile == kAooLowLatencyProfileAdaptiveWireless

/-- The block would not be there in time. -/
def tooLate (s : SourceDesc) (roundTripP95 : ℚ) (blockOffset : Nat) : Bool :=
  s.lowLatency.any fun c =>
    c.profile == kAooLowLatencyProfileAdaptiveWireless &&
      (decide (roundTripP95 ≤ 0) ||
        decide (double ((blockOffset + 1) * blockDuration c) ≤
          double (roundTripP95 + 2 * blockDuration c)))

/-- The loop of `check_missing_blocks`. -/
def resendBlocks (i : ResendInput) :
    List Nat → (blockOffset resent : Nat) → SourceDesc → SourceDesc
  | [], _, _, s => s
  | slot :: rest, blockOffset, resent, s =>
    if s.tooLate (i.roundTripP95 blockOffset) blockOffset then
      resendBlocks i rest (blockOffset + 1) resent s
    else
      let b := s.jitterBuffer.slot slot
      if !b.complete && b.due i.elapsedTime i.interval then
        if (resent : Int) + 1 ≥ i.limit then s.ask slot
        else resendBlocks i rest (blockOffset + 1) (resent + 1) (s.ask slot)
      else resendBlocks i rest (blockOffset + 1) resent s

/-- `source_desc::check_missing_blocks` -/
def check (s : SourceDesc) (i : ResendInput) : SourceDesc :=
  let s := { s with elapsedTime := i.elapsedTime }
  if s.wired then s
  else if s.jitterBuffer.size ≤ 1 ∨ ¬ i.enabled then s
  else resendBlocks i (s.jitterBuffer.indices.take (s.jitterBuffer.size - 1)) 0 0 s

/-! ## The decisions as an argument -/

theorem resendBlocks_eq (i : ResendInput) :
    ∀ (l : List Nat) (blockOffset resent : Nat) (s : SourceDesc), ∃ due,
      resendBlocks i l blockOffset resent s = requestBlocks i.limit (l.zip due) resent s := by
  intro l
  induction l with
  | nil =>
    intro blockOffset resent s
    exact ⟨[], rfl⟩
  | cons slot l ih =>
    intro blockOffset resent s
    rw [resendBlocks]
    split
    -- too late, too early, complete: for `requestBlocks` the block is not due
    next =>
      obtain ⟨due, heq⟩ := ih (blockOffset + 1) resent s
      refine ⟨false :: due, ?_⟩
      rw [heq, List.zip_cons_cons, requestBlocks, Bool.and_false]
      rfl
    next =>
      dsimp only
      split
      next hdue =>
        have hboth := Bool.and_eq_true_iff.mp hdue
        split
        next hlimit =>
          -- behind the limit, nothing has to be decided
          refine ⟨[true], ?_⟩
          rw [List.zip_cons_cons, requestBlocks, hboth.1, Bool.and_true]
          exact (if_pos hlimit).symm
        next hlimit =>
          obtain ⟨due, heq⟩ := ih (blockOffset + 1) (resent + 1) (s.ask slot)
          refine ⟨true :: due, ?_⟩
          rw [heq, List.zip_cons_cons, requestBlocks, hboth.1, Bool.and_true]
          exact (if_neg hlimit).symm
      next =>
        obtain ⟨due, heq⟩ := ih (blockOffset + 1) resent s
        refine ⟨false :: due, ?_⟩
        rw [heq, List.zip_cons_cons, requestBlocks, Bool.and_false]
        rfl

/-- **The clock decides** what is requested; apart from that, nothing is new. -/
theorem check_eq (s : SourceDesc) (i : ResendInput) : ∃ due, s.check i =
    ({ s with elapsedTime := i.elapsedTime } : SourceDesc).checkMissingBlocks i.enabled i.limit
      due := by
  obtain ⟨due, heq⟩ := resendBlocks_eq i
    (s.jitterBuffer.indices.take (s.jitterBuffer.size - 1)) 0 0
    { s with elapsedTime := i.elapsedTime }
  refine ⟨due, ?_⟩
  unfold check checkMissingBlocks
  dsimp only
  rw [heq]

/-! ## What is asked for -/

/-- The blocks that the loop looks at: their slots and positions, without the last one. -/
def offered (s : SourceDesc) (i : ResendInput) : List (Nat × Nat) :=
  if s.wired then []
  else if s.jitterBuffer.size ≤ 1 ∨ ¬ i.enabled then []
  else (s.jitterBuffer.indices.take (s.jitterBuffer.size - 1)).zipIdx

/-- A block at its position should be requested. -/
def wants (s : SourceDesc) (i : ResendInput) (p : Nat × Nat) : Bool :=
  !s.tooLate (i.roundTripP95 p.2) p.2 &&
    (!(s.jitterBuffer.slot p.1).complete &&
      (s.jitterBuffer.slot p.1).due i.elapsedTime i.interval)

/-- The blocks that a call requests. -/
def toAsk (s : SourceDesc) (i : ResendInput) : List (Nat × Nat) :=
  ((s.offered i).filter (s.wants i)).take (max i.limit 1).toNat

/-- A request changes only its block. -/
theorem slot_ask_ne (s : SourceDesc) {j slot : Nat} (hj : j ≠ slot) :
    (s.ask slot).jitterBuffer.slot j = s.jitterBuffer.slot j :=
  JitterBuffer.slot_modify_ne hj _

theorem wants_ask (s : SourceDesc) (i : ResendInput) {p : Nat × Nat} {slot : Nat}
    (hp : p.1 ≠ slot) : (s.ask slot).wants i p = s.wants i p := by
  unfold wants
  rw [s.slot_ask_ne hp]
  rfl

theorem resendBlocks_queue (i : ResendInput) :
    ∀ (l : List Nat) (blockOffset resent : Nat) {s : SourceDesc}, l.Nodup →
      (resendBlocks i l blockOffset resent s).dataRequests = s.dataRequests ++
        (((l.zipIdx blockOffset).filter (s.wants i)).take
          (max (i.limit - resent) 1).toNat).flatMap fun p =>
            blockRequests (s.jitterBuffer.slot p.1) := by
  intro l
  induction l with
  | nil =>
    intro blockOffset resent s _
    rw [resendBlocks, List.zipIdx_nil, List.filter_nil, List.take_nil, List.flatMap_nil,
      List.append_nil]
  | cons slot l ih =>
    intro blockOffset resent s hnodup
    obtain ⟨hslot, hrest⟩ := List.nodup_cons.mp hnodup
    rw [resendBlocks, List.zipIdx_cons, List.filter_cons]
    split
    next hlate =>
      have hno : s.wants i (slot, blockOffset) = false := by
        unfold wants
        rw [hlate, Bool.not_true, Bool.false_and]
      rw [if_neg (by rw [hno]; exact nofun)]
      exact ih (blockOffset + 1) resent hrest
    next hlate =>
      have hwants : s.wants i (slot, blockOffset) = (!(s.jitterBuffer.slot slot).complete &&
          (s.jitterBuffer.slot slot).due i.elapsedTime i.interval) := by
        unfold wants
        rw [Bool.not_eq_true] at hlate
        rw [hlate, Bool.not_false, Bool.true_and]
      rw [hwants]
      dsimp only
      split
      next hdue =>
        have hqueue : (s.ask slot).dataRequests =
            s.dataRequests ++ blockRequests (s.jitterBuffer.slot slot) := rfl
        split
        next hlimit =>
          rw [show (max (i.limit - resent) 1).toNat = 1 by omega, List.take_succ_cons,
            List.take_zero, List.flatMap_singleton, hqueue]
        next hlimit =>
          -- the other blocks are as before
          have hother : ∀ p ∈ l.zipIdx (blockOffset + 1), p.1 ≠ slot := by
            intro p hp hc
            exact hslot (hc ▸ List.fst_mem_of_mem_zipIdx hp)
          have hfilter : (l.zipIdx (blockOffset + 1)).filter ((s.ask slot).wants i) =
              (l.zipIdx (blockOffset + 1)).filter (s.wants i) :=
            List.filter_congr fun p hp => s.wants_ask i (hother p hp)
          rw [ih (blockOffset + 1) (resent + 1) hrest, hfilter, hqueue,
            show (max (i.limit - resent) 1).toNat =
              (max (i.limit - (resent + 1 : Nat)) 1).toNat + 1 by omega,
            List.take_succ_cons, List.flatMap_cons, List.append_assoc]
          refine congrArg _ (congrArg _ (List.flatMap_congr fun p hp => ?_))
          rw [s.slot_ask_ne (hother p (List.mem_filter.mp (List.mem_of_mem_take hp)).1)]
      next => exact ih (blockOffset + 1) resent hrest

/-- **The requests of a call** are those for the blocks it asks for. -/
theorem check_queue {s : SourceDesc} (hp : s.jitterBuffer.Placed) (i : ResendInput) :
    (s.check i).dataRequests =
      s.dataRequests ++ (s.toAsk i).flatMap fun p => blockRequests (s.jitterBuffer.slot p.1) := by
  unfold check toAsk offered
  dsimp only
  have hwired : ({ s with elapsedTime := i.elapsedTime } : SourceDesc).wired = s.wired := rfl
  rw [hwired]
  split
  next => rw [List.filter_nil, List.take_nil, List.flatMap_nil, List.append_nil]
  next =>
    split
    next => rw [List.filter_nil, List.take_nil, List.flatMap_nil, List.append_nil]
    next =>
      have hnodup := ((JitterBuffer.indices_placed hp).2).sublist
        (List.take_sublist (s.jitterBuffer.size - 1) s.jitterBuffer.indices)
      have hqueue := @resendBlocks_queue i _ 0 0 { s with elapsedTime := i.elapsedTime } hnodup
      rw [Nat.cast_zero, Int.sub_zero] at hqueue
      exact hqueue

theorem nodup_offered {s : SourceDesc} (hp : s.jitterBuffer.Placed) (i : ResendInput) :
    (s.offered i).Nodup ∧ ∀ p ∈ s.offered i,
      p.1 < s.jitterBuffer.capacity ∧ s.jitterBuffer.indices[p.2]? = some p.1 := by
  obtain ⟨hcap, hnodup⟩ := JitterBuffer.indices_placed hp
  have hnone : ([] : List (Nat × Nat)).Nodup ∧ ∀ p ∈ ([] : List (Nat × Nat)),
      p.1 < s.jitterBuffer.capacity ∧ s.jitterBuffer.indices[p.2]? = some p.1 :=
    ⟨List.nodup_nil, fun p hp => absurd hp List.not_mem_nil⟩
  unfold offered
  split
  next => exact hnone
  next =>
    split
    next => exact hnone
    next =>
      refine ⟨?_, ?_⟩
      · refine List.Nodup.of_map Prod.fst ?_
        rw [List.zipIdx_map_fst]
        exact hnodup.sublist (List.take_sublist ..)
      · intro p hmem
        have hat := List.mem_zipIdx_iff_getElem?.mp hmem
        refine ⟨hcap p.1 (List.mem_of_mem_take (List.mem_of_getElem? hat)), ?_⟩
        rw [List.getElem?_take] at hat
        split at hat
        next => exact hat
        next => cases hat

/-- A block is asked for if it should be and the limit has not been reached in front of it. -/
theorem mem_toAsk {s : SourceDesc} (hp : s.jitterBuffer.Placed) {i : ResendInput}
    {before after : List (Nat × Nat)} {p : Nat × Nat} (hsplit : s.offered i = before ++ p :: after) :
    p ∈ s.toAsk i ↔ s.wants i p = true ∧ before.countP (s.wants i) < (max i.limit 1).toNat := by
  have hnodup := (nodup_offered hp i).1
  rw [hsplit] at hnodup
  have hnew : p ∉ before := by
    intro hc
    exact (List.nodup_append.mp hnodup).2.2 p hc p (List.mem_cons_self ..) rfl
  rw [toAsk, hsplit]
  exact mem_take_filter hnew _

end SourceDesc

/-! ## Runs -/

/-- What can happen to a stream; blocks are requested as the clock says. -/
inductive PacedAction
  | sink (a : SinkAction)
      (h : ∀ resendEnabled limit due, a ≠ .checkMissingBlocks resendEnabled limit due)
  | check (i : ResendInput)

namespace PacedAction

def step (s : SourceDesc) : PacedAction → SourceDesc
  | .sink a _ => s.step a
  | .check i => if s.decoder.isSome then s.check i else s

/-- A call of `check_missing_blocks` for a wireless stream has the property. -/
def Calls (C : SourceDesc → ResendInput → Prop) (s : SourceDesc) : PacedAction → Prop
  | .sink _ _ => True
  | .check i => s.decoder.isSome = true → s.wireless = true → C s i

/-- The requests that are queued are for blocks of the buffer that can be there in time. -/
structure InTime (s : SourceDesc) (i : ResendInput) : Prop where
  queue : (s.check i).dataRequests =
    s.dataRequests ++ (s.toAsk i).flatMap fun p => SourceDesc.blockRequests (s.jitterBuffer.slot p.1)
  position : ∀ p ∈ s.toAsk i, s.jitterBuffer.indices[p.2]? = some p.1
  deadline : ∀ c, s.lowLatency = some c → ∀ p ∈ s.toAsk i, 0 < i.roundTripP95 p.2 ∧
    (p.2 + 1) * blockDuration c > i.roundTripP95 p.2 + 2 * blockDuration c

/-- No block is requested that has been requested since it got its slot. -/
def Once (s : SourceDesc) (i : ResendInput) : Prop := ∀ p ∈ s.toAsk i, s.askedAt p.1 = []

/-- When the call comes to an incomplete block that can be there in time and has been requested
since it got its slot, less than the interval has passed since (and the clock had started). -/
def Early (s : SourceDesc) (i : ResendInput) : Prop :=
  ∀ before p after, s.offered i = before ++ p :: after →
    before.countP (s.wants i) < (max i.limit 1).toNat →
    (s.jitterBuffer.slot p.1).complete = false → s.tooLate (i.roundTripP95 p.2) p.2 = false →
    ∀ t ∈ s.askedAt p.1, 0 < t ∧ double (i.elapsedTime - t) < i.interval

/-- The time stamp of a block is the time of its last request. -/
def stamped : SlotProperty where
  holds b ts := ∀ t ∈ ts, ReceivedBlock.timestamp b = t
  congr h hold t ht := h.timestamp.trans (hold t ht)
  update _ _ _ ht := (List.mem_singleton.mp ht).symm
  placeholder _ _ _ ht := absurd ht List.not_mem_nil
  new _ ht := absurd ht List.not_mem_nil

/-- The clock changes no slot: **one action** keeps a property of slots, if the block that a
packet opens has it. -/
theorem settled_step {P : SlotProperty} {s : SourceDesc} (h : s.Settled P) {a : PacedAction}
    (hopen : s.decoder.isSome = true → ∀ d hd, a = .sink (.addPacket d) hd →
      ∀ u, s.opened d = some u →
        P.holds ((u.jitterBuffer.slot u.jitterBuffer.head).init d.toDataPacket) []) :
    (step s a).Settled P := by
  cases a with
  | sink a ha =>
    refine SourceDesc.settled_step h fun hd d heq => ?_
    subst heq
    exact hopen hd d ha rfl
  | check i =>
    rw [step]
    split
    next hd =>
      obtain ⟨due, heq⟩ := s.check_eq i
      have hclock : SourceDesc.Seated { s with elapsedTime := i.elapsedTime } P :=
        ⟨h.placed hd, h.remembers⟩
      rw [heq]
      exact (hclock.checkMissingBlocks ..).settled
    next => exact h

theorem stamped_step {s : SourceDesc} (h : s.Settled stamped) (a : PacedAction) :
    (step s a).Settled stamped :=
  settled_step h fun _ _ _ _ _ _ _ ht => absurd ht List.not_mem_nil

theorem wireless_tooLate {s : SourceDesc} (hw : s.wireless = true)
    {c : AooLowLatencyStreamConfiguration} (hc : s.lowLatency = some c) {p95 : ℚ} {k : Nat}
    (hlate : s.tooLate p95 k = false) :
    0 < p95 ∧ (k + 1) * blockDuration c > p95 + 2 * blockDuration c := by
  unfold SourceDesc.wireless at hw
  unfold SourceDesc.tooLate at hlate
  rw [hc, Option.any_some] at hw hlate
  rw [hw, Bool.true_and, Bool.or_eq_false_iff, decide_eq_false_iff_not,
    decide_eq_false_iff_not] at hlate
  have hend : 0 ≤ (k + 1) * blockDuration c := by
    have hpos := blockDuration_nonneg c
    positivity
  exact ⟨not_le.mp hlate.1, lt_of_double_lt hend (not_le.mp hlate.2)⟩

/-- What a call requests can be there in time. -/
theorem inTime {s : SourceDesc} (hp : s.jitterBuffer.Placed) (hw : s.wireless = true)
    (i : ResendInput) : InTime s i := by
  have hmem : ∀ p ∈ s.toAsk i, p ∈ s.offered i ∧ s.wants i p = true :=
    fun p hp => List.mem_filter.mp (List.mem_of_mem_take hp)
  refine ⟨SourceDesc.check_queue hp i, ?_, ?_⟩
  · intro p hask
    exact ((SourceDesc.nodup_offered hp i).2 p (hmem p hask).1).2
  · intro c hc p hask
    have hwants := (hmem p hask).2
    unfold SourceDesc.wants at hwants
    exact wireless_tooLate hw hc (Bool.not_eq_true' _ ▸ (Bool.and_eq_true_iff.mp hwants).1)

/-- **One call** requests no block again exactly if it comes early. -/
theorem once_iff {s : SourceDesc} (h : s.Seated stamped) (i : ResendInput) :
    Once s i ↔ Early s i := by
  refine ⟨?_, ?_⟩
  · intro honce before p after hsplit hcount hcomplete hlate t ht
    -- otherwise the block would be requested again
    by_contra hc
    have hmem : p ∈ s.offered i := by
      rw [hsplit]
      exact List.mem_append_right _ (List.mem_cons_self ..)
    have htime := h.remembers p.1 ((SourceDesc.nodup_offered h.placed i).2 p hmem).1 t ht
    have hdue : (s.jitterBuffer.slot p.1).due i.elapsedTime i.interval = true := by
      unfold ReceivedBlock.due
      rw [Bool.not_eq_true', Bool.and_eq_false_iff, decide_eq_false_iff_not,
        decide_eq_false_iff_not, htime]
      exact not_and_or.mp hc
    -- the timer does not hold it back
    have hask := (SourceDesc.mem_toAsk h.placed hsplit).mpr ⟨by
      unfold SourceDesc.wants
      rw [hlate, hcomplete, hdue]
      rfl, hcount⟩
    rw [honce p hask] at ht
    exact List.not_mem_nil ht
  · intro hearly p hask
    obtain ⟨hmem, hwants⟩ := List.mem_filter.mp (List.mem_of_mem_take hask)
    obtain ⟨before, after, hsplit⟩ := List.append_of_mem hmem
    have hcount := ((SourceDesc.mem_toAsk h.placed hsplit).mp hask).2
    have hcap := ((SourceDesc.nodup_offered h.placed i).2 p hmem).1
    unfold SourceDesc.wants at hwants
    rw [Bool.and_eq_true_iff, Bool.and_eq_true_iff, Bool.not_eq_true', Bool.not_eq_true'] at hwants
    obtain ⟨hlate, hcomplete, hdue⟩ := hwants
    rw [List.eq_nil_iff_forall_not_mem]
    intro t ht
    have hrunning := hearly before p after hsplit hcount hcomplete hlate t ht
    have htime := h.remembers p.1 hcap t ht
    unfold ReceivedBlock.due at hdue
    rw [Bool.not_eq_true', Bool.and_eq_false_iff, decide_eq_false_iff_not,
      decide_eq_false_iff_not, htime] at hdue
    rcases hdue with hdue | hdue
    · exact hdue hrunning.1
    · exact hdue hrunning.2

/-- **Every block is requested in at most one call** as long as it stays, exactly if the calls
come early; and in all runs only what can be there in time is requested. -/
theorem requested_once_iff :
    ∀ as : List PacedAction,
      (StepsAll step (Calls Once) {} as ↔ StepsAll step (Calls Early) {} as) ∧
        StepsAll step (Calls InTime) {} as := by
  intro as
  have hstart : ({} : SourceDesc).Settled stamped := SourceDesc.settled_start stamped
  refine ⟨?_, ?_⟩
  · refine stepsAll_congr (I := (SourceDesc.Settled · stamped)) ?_
      (fun s a h _ => stamped_step h a) as hstart
    intro s a h
    cases a with
    | sink a ha => exact Iff.rfl
    | check i =>
      refine forall_congr' fun hd => forall_congr' fun _ => ?_
      exact once_iff (h.seated hd) i
  · refine StepsAll.imp (I := (SourceDesc.Settled · stamped)) (C := fun _ _ => True) ?_
      (fun s a h _ => stamped_step h a) as hstart (stepsAll_iff.mpr fun _ _ _ => trivial)
    intro s a h _
    cases a with
    | sink a ha => exact trivial
    | check i => exact fun hd hw => inTime (h.placed hd) hw i

/-- A block of a wireless stream, in one packet. -/
def wirelessBlock (seq : Nat) : NetPacket where
  sequence := seq
  channel := 0
  tt := 0
  samplerate := 48000
  totalSize := 192
  msgSize := 0
  numFrames := 1
  frameIndex := 0
  data := List.replicate 192 0
  flags := 0
  absoluteSamplePosition := UInt64.ofNat (64 * seq)
  blockFrames := 64
  streamId := 7

theorem wirelessBlock_ne_check (seq : Nat) : ∀ resendEnabled limit due,
    SinkAction.addPacket (wirelessBlock seq) ≠ .checkMissingBlocks resendEnabled limit due :=
  nofun

/-- Blocks 0, 1 and 3 of a wireless stream have come, and missing blocks are requested at the
given times, with an interval of 50 ms. -/
def gapRun (times : List ℚ) : List PacedAction :=
  .sink (.handleStart ⟨7, 0, some ⟨1, 2, 2, 1, 64, 1200, 1, 48000, 256, 15, [0]⟩, some 64, true,
      ⟨0, 4, 1, 4, [], Nat.one_pos⟩, SourceDesc.StartArgs.range_zero⟩) nofun ::
    [0, 1, 3].map (fun seq =>
      .sink (.addPacket (wirelessBlock seq)) (wirelessBlock_ne_check seq)) ++
    times.map fun time => .check ⟨true, 16, 1 / 20, time, fun _ => 1 / 1000⟩

/-- Block 2 is requested again and again, every 50 ms. -/
theorem requested_twice : ¬ StepsAll step (Calls Once) {} (gapRun [1, 11 / 10]) := by
  intro h
  have hlast := stepsAll_iff.mp h (gapRun [1])
    (.check ⟨true, 16, 1 / 20, 11 / 10, fun _ => 1 / 1000⟩) (by exact List.prefix_rfl)
  have hdecoder : ((gapRun [1]).foldl step {}).decoder.isSome = true := by decide +kernel
  have hwireless : ((gapRun [1]).foldl step {}).wireless = true := by decide +kernel
  have hasked : ((gapRun [1]).foldl step {}).askedAt 2 = [1] := by decide +kernel
  have hask : (2, 2) ∈ ((gapRun [1]).foldl step {}).toAsk
      ⟨true, 16, 1 / 20, 11 / 10, fun _ => 1 / 1000⟩ := by decide +kernel
  rw [hlast hdecoder hwireless (2, 2) hask] at hasked
  cases hasked

end PacedAction

end Aoo.Stream
