import Aoo.Apple.AdaptivePolicy
import Aoo.Lib.Ring
import Mathlib.Data.List.Sort

/-!
# The adaptive latency controller

`AdaptiveLatencyController.swift`. The controller keeps the last 4096 arrival residuals
in a ring and three optional times. `observe` raises the target where the observation
needs more, and lowers it by one block after 30 quiet seconds if the p99 of the ring
leaves room.

Numbers are exact, so `roundUp` has no rounding slack.

**Main result.** `controller_followsPolicy`.
-/

namespace Aoo.Apple

open Lib

/-- What `observe` is called with. -/
structure Observation where
  arrivalResidualMilliseconds : ℚ
  wasLate : Bool
  concealed : Bool
  underrun : Bool
  now : ℚ
  deriving DecidableEq, Repr

/-- A late packet, a concealment or an underrun. -/
def Observation.unstable (o : Observation) : Bool := o.wasLate || o.concealed || o.underrun

inductive AdaptiveReason where
  | unchanged
  | deficit
  | sustainedHeadroom
  deriving DecidableEq, Repr

structure AOOAdaptiveLatencyDecision where
  targetLatencyMilliseconds : ℚ
  changed : Bool
  reason : AdaptiveReason
  deriving DecidableEq, Repr

def residualCapacity : Nat := 4096
def adjustmentIntervalSeconds : ℚ := 30

structure AOOAdaptiveLatencyController where
  targetLatencyMilliseconds : ℚ
  blockDurationMilliseconds : ℚ
  residuals : List ℚ := List.replicate residualCapacity 0
  residualWriteIndex : Nat := 0
  residualCount : Nat := 0
  observationStartTime : Option ℚ := none
  lastInstabilityTime : Option ℚ := none
  lastAdjustmentTime : Option ℚ := none

/-- The interpolated percentile of a list of values. -/
def percentileOf (fraction : ℚ) (values : List ℚ) : ℚ :=
  if values.isEmpty then 0
  else
    let values := values.insertionSort (· ≤ ·)
    let offset := min (max fraction 0) 1 * (values.length - 1 : Nat)
    let lower := ⌊offset⌋.toNat
    let upper := ⌈offset⌉.toNat
    if lower = upper then values.getD lower 0
    else
      let blend := offset - lower
      values.getD lower 0 + (values.getD upper 0 - values.getD lower 0) * blend

namespace AOOAdaptiveLatencyController

def roundUp (block milliseconds : ℚ) : ℚ := roundUpToBlocks 2 block milliseconds

def init (sampleRate : ℚ) (blockSize : Int) (initialRoundTripP99Milliseconds : Option ℚ) :
    AOOAdaptiveLatencyController :=
  let blockDuration := blockSize / sampleRate * 1000
  let inferred := (initialRoundTripP99Milliseconds.bind fun value =>
    if 0 ≤ value then some (max 8 (value * (1 / 2) + 2 * blockDuration)) else none).getD 50
  { targetLatencyMilliseconds := roundUp blockDuration inferred
    blockDurationMilliseconds := blockDuration }

/-- The first two steps of `observe`: the start time, and the residual in the ring. -/
def note (c : AOOAdaptiveLatencyController) (o : Observation) : AOOAdaptiveLatencyController :=
  { c with
    observationStartTime := c.observationStartTime.or (some o.now)
    residuals := c.residuals.set c.residualWriteIndex o.arrivalResidualMilliseconds
    residualWriteIndex := (c.residualWriteIndex + 1) % residualCapacity
    residualCount := min (c.residualCount + 1) residualCapacity }

def percentile (c : AOOAdaptiveLatencyController) (fraction : ℚ) : ℚ :=
  percentileOf fraction ((List.range c.residualCount).map fun index =>
    let storedIndex := if c.residualCount = residualCapacity
      then (c.residualWriteIndex + index) % residualCapacity else index
    c.residuals.getD storedIndex 0)

def unchangedDecision (c : AOOAdaptiveLatencyController) : AOOAdaptiveLatencyDecision :=
  ⟨c.targetLatencyMilliseconds, false, .unchanged⟩

/-- The second half of `observe`, where nothing has to be raised. -/
def lower (c : AOOAdaptiveLatencyController) (now : ℚ) :
    AOOAdaptiveLatencyController × AOOAdaptiveLatencyDecision :=
  let stabilityEpoch := (c.lastInstabilityTime.or c.observationStartTime).getD now
  let adjustmentEpoch := (c.lastAdjustmentTime.or c.observationStartTime).getD now
  let sinceInstability := now - stabilityEpoch
  let sinceAdjustment := now - adjustmentEpoch
  if c.residualCount > 0 ∧ sinceInstability ≥ adjustmentIntervalSeconds ∧
      sinceAdjustment ≥ adjustmentIntervalSeconds then
    let p99 := c.percentile (99 / 100)
    let headroom := c.targetLatencyMilliseconds - max 0 p99
    if headroom ≥ 3 * c.blockDurationMilliseconds then
      let next := max 8 (c.targetLatencyMilliseconds - c.blockDurationMilliseconds)
      if next < c.targetLatencyMilliseconds then
        ({ c with targetLatencyMilliseconds := next, lastAdjustmentTime := some now },
          ⟨next, true, .sustainedHeadroom⟩)
      else (c, c.unchangedDecision)
    else (c, c.unchangedDecision)
  else (c, c.unchangedDecision)

/-- The target that an observation asks for. -/
def requiredTarget (c : AOOAdaptiveLatencyController) (o : Observation) : ℚ :=
  let arrivalJitter := max 0 o.arrivalResidualMilliseconds
  roundUp c.blockDurationMilliseconds (arrivalJitter + 2 * c.blockDurationMilliseconds)

def observe (c : AOOAdaptiveLatencyController) (o : Observation) :
    AOOAdaptiveLatencyController × AOOAdaptiveLatencyDecision :=
  let c := c.note o
  let requiredTarget := c.requiredTarget o
  if o.wasLate ∨ o.concealed ∨ o.underrun ∨ requiredTarget > c.targetLatencyMilliseconds then
    let c := { c with lastInstabilityTime := some o.now }
    if requiredTarget > c.targetLatencyMilliseconds then
      let target := min 200 requiredTarget
      ({ c with targetLatencyMilliseconds := target, lastAdjustmentTime := some o.now },
        ⟨target, true, .deficit⟩)
    else c.lower o.now
  else c.lower o.now

/-! ## What a call does -/

theorem lower_cases (c : AOOAdaptiveLatencyController) (now : ℚ) :
    (c.lower now).1 = c ∨
    (∀ t, c.lastInstabilityTime = some t → 30 ≤ now - t) ∧
      (∀ t, c.lastAdjustmentTime = some t → 30 ≤ now - t) ∧
      max 0 (c.percentile (99 / 100)) + 3 * c.blockDurationMilliseconds ≤
        c.targetLatencyMilliseconds ∧
      (c.lower now).1 = { c with
        targetLatencyMilliseconds :=
          max 8 (c.targetLatencyMilliseconds - c.blockDurationMilliseconds)
        lastAdjustmentTime := some now } := by
  unfold lower
  simp only
  split
  next hquiet =>
    split
    next hroom =>
      split
      next hnext =>
        refine Or.inr ⟨fun t ht => ?_, fun t ht => ?_, by linarith, rfl⟩
        · have := hquiet.2.1
          rw [ht] at this
          exact this
        · have := hquiet.2.2
          rw [ht] at this
          exact this
      next => exact Or.inl rfl
    next => exact Or.inl rfl
  next => exact Or.inl rfl

/-- The controller with the residual and, for an unstable observation, its time. -/
def timed (c : AOOAdaptiveLatencyController) (o : Observation) : AOOAdaptiveLatencyController :=
  { c.note o with
    lastInstabilityTime := if o.unstable then some o.now else c.lastInstabilityTime }

/-- Either the target is raised, or the second half runs after the time of an unstable
observation was set. -/
theorem observe_cases (c : AOOAdaptiveLatencyController) (o : Observation) :
    c.targetLatencyMilliseconds < c.requiredTarget o ∧
      (c.observe o).1 = { c.note o with
        lastInstabilityTime := some o.now
        targetLatencyMilliseconds := min 200 (c.requiredTarget o)
        lastAdjustmentTime := some o.now } ∨
    c.requiredTarget o ≤ c.targetLatencyMilliseconds ∧
      (c.observe o).1 = ((c.timed o).lower o.now).1 := by
  unfold observe timed
  simp only
  have hrequired : (c.note o).requiredTarget o = c.requiredTarget o := rfl
  have htarget : (c.note o).targetLatencyMilliseconds = c.targetLatencyMilliseconds := rfl
  rw [hrequired, htarget]
  by_cases hdeficit : c.targetLatencyMilliseconds < c.requiredTarget o
  · rw [if_pos (Or.inr (Or.inr (Or.inr hdeficit))), if_pos hdeficit]
    exact Or.inl ⟨hdeficit, rfl⟩
  · refine Or.inr ⟨not_lt.mp hdeficit, ?_⟩
    have hunstable : (o.wasLate = true ∨ o.concealed = true ∨ o.underrun = true ∨
        c.requiredTarget o > c.targetLatencyMilliseconds) ↔ o.unstable = true := by
      simp only [Observation.unstable, Bool.or_eq_true, hdeficit, or_false, or_assoc]
    simp only [hunstable]
    split <;> rfl

end AOOAdaptiveLatencyController

/-! ## The controller follows the policy -/

/-- The last 4096 residuals, or all of them. -/
def lastResiduals (residuals : List ℚ) : List ℚ :=
  residuals.drop (residuals.length - residualCapacity)

/-- A controller and the residuals of all its observations. -/
structure ObservedController where
  controller : AOOAdaptiveLatencyController
  seen : List ℚ

namespace ObservedController

def step (s : ObservedController) (o : Observation) : ObservedController :=
  ⟨(s.controller.observe o).1, s.seen ++ [o.arrivalResidualMilliseconds]⟩

/-- What the policy sees of a call. -/
def describe (s : ObservedController) (o : Observation) : PlayoutStep where
  now := o.now
  unstable := o.unstable
  demand := o.arrivalResidualMilliseconds + 2 * s.controller.blockDurationMilliseconds
  p99 := percentileOf (99 / 100) (lastResiduals (s.seen ++ [o.arrivalResidualMilliseconds]))
  before := s.controller.targetLatencyMilliseconds
  after := (s.controller.observe o).1.targetLatencyMilliseconds

/-- What holds between two calls. -/
structure Inv (block : ℚ) (s : ObservedController) (history : List PlayoutStep) : Prop where
  block_eq : s.controller.blockDurationMilliseconds = block
  bounded : 8 ≤ s.controller.targetLatencyMilliseconds ∧
    s.controller.targetLatencyMilliseconds ≤ 200
  timers : Timers history s.controller.lastInstabilityTime s.controller.lastAdjustmentTime
  size : s.controller.residuals.length = residualCapacity
  recent : Recent s.controller.residuals s.controller.residualWriteIndex
    s.controller.residualCount s.seen

variable {block : ℚ} {s : ObservedController} {history : List PlayoutStep}

/-- The ring after a call holds the last residuals. -/
theorem Inv.recent_note (h : Inv block s history) (o : Observation) :
    Recent (s.controller.note o).residuals (s.controller.note o).residualWriteIndex
      (s.controller.note o).residualCount (s.seen ++ [o.arrivalResidualMilliseconds]) := by
  have hpush := h.recent.push o.arrivalResidualMilliseconds
  rw [h.size] at hpush
  exact hpush

theorem Inv.percentile_note (h : Inv block s history) (o : Observation) (fraction : ℚ) :
    (s.controller.note o).percentile fraction =
      percentileOf fraction (lastResiduals (s.seen ++ [o.arrivalResidualMilliseconds])) := by
  have hread := (h.recent_note o).read 0
  have hsize : (s.controller.note o).residuals.length = residualCapacity :=
    (List.length_set ..).trans h.size
  rw [hsize] at hread
  exact congrArg (percentileOf fraction) hread

/-- An observation that needs more than 200 ms of a target that is there already also says
that something went wrong. -/
def Voiced (s : ObservedController) (o : Observation) : Prop :=
  s.controller.targetLatencyMilliseconds = 200 →
    200 < o.arrivalResidualMilliseconds + 2 * s.controller.blockDurationMilliseconds →
      o.unstable = true

instance (s : ObservedController) (o : Observation) : Decidable (s.Voiced o) :=
  inferInstanceAs (Decidable (_ → _ → _))

/-- The target that an observation asks for covers it. -/
theorem min_le_requiredTarget {c : AOOAdaptiveLatencyController}
    (hblock : 0 < c.blockDurationMilliseconds) (o : Observation) :
    min 200 (o.arrivalResidualMilliseconds + 2 * c.blockDurationMilliseconds) ≤
      c.requiredTarget o := by
  have hle := min_le_roundUpToBlocks hblock 2
    (max 0 o.arrivalResidualMilliseconds + 2 * c.blockDurationMilliseconds)
  have hmax := le_max_right 0 o.arrivalResidualMilliseconds
  exact (min_le_min_left 200 (by linarith)).trans hle

/-- A call that raises the target. -/
theorem Inv.raised (h : Inv block s history) (hblock : 0 < block) (o : Observation)
    (hpast : ∀ p ∈ history, p.now ≤ o.now)
    (hdeficit : s.controller.targetLatencyMilliseconds < s.controller.requiredTarget o)
    (hres : (s.controller.observe o).1 = { s.controller.note o with
      lastInstabilityTime := some o.now
      targetLatencyMilliseconds := min 200 (s.controller.requiredTarget o)
      lastAdjustmentTime := some o.now }) :
    ObeysPolicy block history (s.describe o) ∧
      Inv block (s.step o) (history ++ [s.describe o]) := by
  have hlow := h.bounded.1
  have hrequired : s.controller.requiredTarget o ≤ 200 := roundUpToBlocks_le ..
  have hafter : (s.describe o).after = s.controller.requiredTarget o := by
    rw [describe, hres]
    exact min_eq_right hrequired
  refine ⟨⟨?_, fun _ => ?_, fun hlt => ?_⟩, ?_⟩
  · rw [hafter]
    exact ⟨hlow.trans hdeficit.le, hrequired⟩
  · rw [hafter]
    exact min_le_requiredTarget (h.block_eq.symm ▸ hblock) o
  · rw [hafter] at hlt
    exact absurd hdeficit (not_lt.mpr hlt.le)
  · unfold ObservedController.step
    rw [hres]
    refine ⟨h.block_eq, ?_, h.timers.snoc hpast (Or.inl rfl) (Or.inl rfl),
      (List.length_set ..).trans h.size, h.recent_note o⟩
    exact ⟨le_min (by norm_num) (hlow.trans hdeficit.le), min_le_left _ _⟩

/-- What restarts the 30 seconds is unstable, if nothing has to be raised. -/
theorem Inv.restarts (h : Inv block s history) (hblock : 0 < block) (o : Observation)
    (hv : s.Voiced o)
    (henough : s.controller.requiredTarget o ≤ s.controller.targetLatencyMilliseconds)
    (hr : (s.describe o).Restarts) : o.unstable = true := by
  rcases hr with hu | hneed
  · exact hu
  · -- what is needed is cut off at 200 ms, and the target is there
    have hle := (min_le_requiredTarget (h.block_eq.symm ▸ hblock) o).trans henough
    rcases le_total 200 (o.arrivalResidualMilliseconds +
      2 * s.controller.blockDurationMilliseconds) with h200 | h200
    · rw [min_eq_left h200] at hle
      have htarget := le_antisymm h.bounded.2 hle
      exact hv htarget (htarget ▸ hneed)
    · rw [min_eq_right h200] at hle
      exact absurd hneed (not_lt.mpr hle)

/-- The time of an unstable observation is kept. -/
theorem timed_instability (o : Observation) (hrestarts : (s.describe o).Restarts → o.unstable = true) :
    (s.controller.timed o).lastInstabilityTime = some o.now ∨
      (s.controller.timed o).lastInstabilityTime = s.controller.lastInstabilityTime ∧
        ¬ (s.describe o).Restarts := by
  cases hu : o.unstable with
  | true => exact Or.inl (if_pos hu)
  | false =>
    have hu' : ¬ o.unstable = true := by
      rw [hu]
      exact Bool.false_ne_true
    exact Or.inr ⟨if_neg hu', fun hr => hu' (hrestarts hr)⟩

/-- A call that leaves the target as it is. -/
theorem Inv.kept (h : Inv block s history) (hblock : 0 < block) (o : Observation)
    (hpast : ∀ p ∈ history, p.now ≤ o.now)
    (henough : s.controller.requiredTarget o ≤ s.controller.targetLatencyMilliseconds)
    (hrestarts : (s.describe o).Restarts → o.unstable = true)
    (hres : (s.controller.observe o).1 = s.controller.timed o) :
    ObeysPolicy block history (s.describe o) ∧
      Inv block (s.step o) (history ++ [s.describe o]) := by
  have hafter : (s.describe o).after = s.controller.targetLatencyMilliseconds := by
    rw [describe, hres]
    rfl
  refine ⟨⟨?_, fun _ => ?_, fun hlt => ?_⟩, ?_⟩
  · rw [hafter]
    exact h.bounded
  · rw [hafter]
    exact (min_le_requiredTarget (h.block_eq.symm ▸ hblock) o).trans henough
  · rw [hafter] at hlt
    exact absurd hlt (lt_irrefl _)
  · unfold ObservedController.step
    rw [hres]
    exact ⟨h.block_eq, h.bounded,
      h.timers.snoc hpast (timed_instability o hrestarts) (Or.inr ⟨rfl, hafter⟩),
      (List.length_set ..).trans h.size, h.recent_note o⟩

/-- A call that lowers the target. -/
theorem Inv.lowered (h : Inv block s history) (hblock : 0 < block) (o : Observation)
    (hpast : ∀ p ∈ history, p.now ≤ o.now) (hrestarts : (s.describe o).Restarts → o.unstable = true)
    (hinstability : ∀ t, (s.controller.timed o).lastInstabilityTime = some t → 30 ≤ o.now - t)
    (hadjustment : ∀ t, (s.controller.timed o).lastAdjustmentTime = some t → 30 ≤ o.now - t)
    (hroom : max 0 ((s.controller.timed o).percentile (99 / 100)) +
      3 * s.controller.blockDurationMilliseconds ≤ s.controller.targetLatencyMilliseconds)
    (hres : (s.controller.observe o).1 = { s.controller.timed o with
      targetLatencyMilliseconds := max 8
        (s.controller.targetLatencyMilliseconds - s.controller.blockDurationMilliseconds)
      lastAdjustmentTime := some o.now }) :
    ObeysPolicy block history (s.describe o) ∧
      Inv block (s.step o) (history ++ [s.describe o]) := by
  have hb := h.block_eq
  have hhigh := h.bounded.2
  have hstable : ¬ o.unstable = true := by
    intro hu
    have := hinstability o.now (if_pos hu)
    rw [sub_self] at this
    norm_num at this
  have hold := h.timers.elapsed (fun t ht => hinstability t ((if_neg hstable).trans ht)) hadjustment
  have hafter : (s.describe o).after =
      max 8 (s.controller.targetLatencyMilliseconds - block) := by
    rw [describe, hres, ← hb]
  have hcovered : max 0 (s.describe o).p99 + 3 * block ≤
      s.controller.targetLatencyMilliseconds := by
    rw [describe, ← h.percentile_note, ← hb]
    exact hroom
  have hle := le_max_right 8 (s.controller.targetLatencyMilliseconds - block)
  have hbounds : 8 ≤ max 8 (s.controller.targetLatencyMilliseconds - block) ∧
      max 8 (s.controller.targetLatencyMilliseconds - block) ≤ 200 :=
    ⟨le_max_left .., max_le (by norm_num) (by linarith)⟩
  refine ⟨⟨?_, fun hneed => ?_, fun _ => ⟨?_, ?_, ?_, hold⟩⟩, ?_⟩
  · rw [hafter]
    exact hbounds
  · exact absurd (hrestarts (Or.inr hneed)) hstable
  · rw [hafter]
    exact hle
  · rw [hafter]
    linarith
  · exact fun hr => hstable (hrestarts hr)
  · unfold ObservedController.step
    rw [hres]
    refine ⟨hb, ?_, h.timers.snoc hpast (timed_instability o hrestarts) (Or.inl rfl),
      (List.length_set ..).trans h.size, h.recent_note o⟩
    rw [← hb] at hbounds
    exact hbounds

/-- One call obeys the policy and keeps the invariant. -/
theorem Inv.step (h : Inv block s history) (hblock : 0 < block) (o : Observation)
    (hpast : ∀ p ∈ history, p.now ≤ o.now) (hv : s.Voiced o) :
    ObeysPolicy block history (s.describe o) ∧
      Inv block (s.step o) (history ++ [s.describe o]) := by
  rcases s.controller.observe_cases o with ⟨hdeficit, hres⟩ | ⟨henough, hres⟩
  · exact h.raised hblock o hpast hdeficit hres
  · have hrestarts := h.restarts hblock o hv henough
    rcases (s.controller.timed o).lower_cases o.now with hsame | ⟨hi, ha, hroom, hlower⟩
    · exact h.kept hblock o hpast henough hrestarts (hres.trans hsame)
    · exact h.lowered hblock o hpast hrestarts hi ha hroom (hres.trans hlower)

/-- A new controller. -/
def fresh (sampleRate : ℚ) (blockSize : Int) (initialRoundTripP99Milliseconds : Option ℚ) :
    ObservedController :=
  ⟨.init sampleRate blockSize initialRoundTripP99Milliseconds, []⟩

theorem inv_fresh (sampleRate : ℚ) (blockSize : Int) (rtt : Option ℚ)
    (hblock : 0 < (fresh sampleRate blockSize rtt).controller.blockDurationMilliseconds) :
    Inv (fresh sampleRate blockSize rtt).controller.blockDurationMilliseconds
      (fresh sampleRate blockSize rtt) [] where
  block_eq := rfl
  bounded := by
    refine ⟨le_trans ?_ (le_roundUpToBlocks hblock 2 _), roundUpToBlocks_le ..⟩
    refine le_min (by norm_num) (le_max_of_le_right ?_)
    cases rtt with
    | none => norm_num
    | some value =>
      rw [Option.bind_some]
      split
      next => exact le_max_left ..
      next => norm_num
  timers := ⟨fun _ hp => absurd hp List.not_mem_nil, fun _ hp => absurd hp List.not_mem_nil⟩
  size := List.length_replicate
  recent := by
    refine recent_nil ?_
    show 0 < (List.replicate residualCapacity (0 : ℚ)).length
    rw [List.length_replicate]
    decide

/-- **The controller follows the policy** for every block duration and every sequence of
observations with times that do not decrease, as long as an observation that needs more than
the 200 ms that are there says that something went wrong. -/
theorem controller_followsPolicy (sampleRate : ℚ) (blockSize : Int) (rtt : Option ℚ)
    (hblock : 0 < (fresh sampleRate blockSize rtt).controller.blockDurationMilliseconds)
    (os : List Observation) (hsorted : (os.map Observation.now).Pairwise (· ≤ ·))
    (hv : StepsAll step Voiced (fresh sampleRate blockSize rtt) os) :
    FollowsPolicy (fresh sampleRate blockSize rtt).controller.blockDurationMilliseconds
      (playoutTrace step (fun s o => some (s.describe o)) (fresh sampleRate blockSize rtt) os) := by
  refine followsPolicy_run (I := Inv _) (C := Voiced) (fun s o e he => ?_)
    (fun s h o e hI hC he hpast => ?_) (fun s h o hI hC hpast => ?_) os _ []
    (inv_fresh sampleRate blockSize rtt hblock) hv hsorted
    (fun _ hp => absurd hp List.not_mem_nil) (followsPolicy_nil _)
  · cases he
    rfl
  · cases he
    exact (hI.step hblock o hpast hC).1
  · exact (hI.step hblock o hpast hC).2

end ObservedController

end Aoo.Apple
