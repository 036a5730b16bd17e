import Aoo.Apple.AdaptiveLatency
import Aoo.Apple.Receiver

/-!
# The adaptive thread of the bridge

`startReceiverAdaptiveThread` in `AOOAppleBridge.cpp`. Every 50 ms the thread reads the
statistics of the sink and the counters of the receiver, and moves the target by the
same policy as the controller, from p99 residuals.

It differs from the controller in one point: nothing in the loop looks at the stale
datagrams, so a late packet does not restart its 30 seconds (`latePacket_lowered`).
With that, and with targets that are too close to one another or above 200 ms from the
start, out of the way, it follows the policy (`adaptiveTarget_followsPolicy`).

Times are in seconds, as exact numbers.
-/

namespace Aoo.Apple

open Lib

/-- The statistics of the sink that the loop could look at. -/
structure AooLowLatencySinkStatistics where
  arrivalObservationCount : UInt64
  p99ArrivalResidual : ℚ
  p99CompletionResidual : ℚ
  staleDatagramCount : UInt64
  deriving DecidableEq, Repr

/-- What one turn of the loop finds; no statistics stand for an error. -/
structure Poll where
  activeTransportProfile : Int
  statistics : Option AooLowLatencySinkStatistics
  concealments : UInt64
  bufferUnderruns : UInt64
  now : ℚ
  deriving DecidableEq, Repr

/-- The block size and the sample rate of a receiver, as `AOOAppleReceiverCreate` clamps
them. -/
structure ReceiverFormat where
  streamBlockSize : Nat
  sampleRate : Nat
  blockSize_pos : 0 < streamBlockSize
  rate_ge : 8000 ≤ sampleRate
  rate_le : sampleRate ≤ 384000

def ReceiverFormat.blockMilliseconds (f : ReceiverFormat) : ℚ :=
  f.streamBlockSize / f.sampleRate * 1000

theorem ReceiverFormat.blockMilliseconds_pos (f : ReceiverFormat) :
    0 < f.blockMilliseconds := by
  have hblock : (0 : ℚ) < f.streamBlockSize := by exact_mod_cast f.blockSize_pos
  have hrate : (0 : ℚ) < f.sampleRate := by
    have := f.rate_ge
    exact_mod_cast (by omega : 0 < f.sampleRate)
  exact mul_pos (div_pos hblock hrate) (by norm_num)

/-- `AooSink_setLowLatencyTarget` -/
def setLowLatencyTarget (targetLatencyFrames : UInt32) : Except AooError Unit :=
  if targetLatencyFrames = 0 then .error .badArgument else .ok ()

/-- `std::llround` of a number that is not negative. -/
def llround (x : ℚ) : Int := ⌊x + 1 / 2⌋

/-- The variables of the loop and what it writes in the receiver. -/
structure AdaptiveThread where
  targetLatencySeconds : ℚ
  lastInstability : ℚ
  /-- `none` is `time_point::min()` -/
  lastAdjustment : Option ℚ := none
  previousObservationCount : UInt64 := 0
  previousConcealments : UInt64 := 0
  previousUnderruns : UInt64 := 0
  adaptiveAdjustments : UInt64 := 0
  lastError : Option AooError := none

namespace AdaptiveThread

def roundedTarget (f : ReceiverFormat) (milliseconds : ℚ) : ℚ :=
  roundUpToBlocks 8 f.blockMilliseconds milliseconds

def jitterMilliseconds (statistics : AooLowLatencySinkStatistics) : ℚ :=
  max 0 (max statistics.p99ArrivalResidual statistics.p99CompletionResidual * 1000)

def requiredTarget (f : ReceiverFormat) (statistics : AooLowLatencySinkStatistics) : ℚ :=
  roundedTarget f (jitterMilliseconds statistics + 2 * f.blockMilliseconds)

def currentTarget (t : AdaptiveThread) : ℚ := t.targetLatencySeconds * 1000

/-- Were there concealments or underruns since the last observation? -/
def hadInstability (t : AdaptiveThread) (p : Poll) : Bool :=
  p.concealments != t.previousConcealments || p.bufferUnderruns != t.previousUnderruns

/-- The next target, after the time of an unstable observation was set. -/
def nextTarget (f : ReceiverFormat) (t : AdaptiveThread) (p : Poll)
    (statistics : AooLowLatencySinkStatistics) : ℚ :=
  let adjustmentAllowed := t.lastAdjustment.all fun lastAdjustment =>
    decide (30 ≤ p.now - lastAdjustment)
  if requiredTarget f statistics > t.currentTarget then requiredTarget f statistics
  else if adjustmentAllowed ∧ 30 ≤ p.now - t.lastInstability ∧
      3 * f.blockMilliseconds ≤ t.currentTarget - jitterMilliseconds statistics then
    roundedTarget f (max 8 (t.currentTarget - f.blockMilliseconds))
  else t.currentTarget

/-- The end of a turn: the sink is told of a target that differs. -/
def adjust (f : ReceiverFormat) (t : AdaptiveThread) (now nextTarget : ℚ) : AdaptiveThread :=
  if |nextTarget - t.currentTarget| > 1 / 1000000 then
    match setLowLatencyTarget (UInt32.ofInt (llround (nextTarget * (1 / 1000) * f.sampleRate))) with
    | .ok () =>
      { t with
        targetLatencySeconds := nextTarget * (1 / 1000)
        adaptiveAdjustments := t.adaptiveAdjustments + 1
        lastAdjustment := some now }
    | .error e => { t with lastError := some e }
  else t

/-- The statistics of a turn that observes something new. -/
def observation (t : AdaptiveThread) (p : Poll) : Option AooLowLatencySinkStatistics :=
  if p.activeTransportProfile ≠ AOOAppleTransportProfileAdaptiveWireless then none
  else p.statistics.filter fun statistics =>
    statistics.arrivalObservationCount != t.previousObservationCount

/-- The observation is noted: the counters, and the time of an unstable one. -/
def note (f : ReceiverFormat) (t : AdaptiveThread) (p : Poll)
    (statistics : AooLowLatencySinkStatistics) : AdaptiveThread :=
  { t with
    previousObservationCount := statistics.arrivalObservationCount
    previousConcealments := p.concealments
    previousUnderruns := p.bufferUnderruns
    lastInstability := if t.hadInstability p ∨ requiredTarget f statistics > t.currentTarget
      then p.now else t.lastInstability }

/-- One turn of the loop. -/
def poll (f : ReceiverFormat) (t : AdaptiveThread) (p : Poll) : AdaptiveThread :=
  match t.observation p with
  | none => t
  | some statistics =>
    let t := t.note f p statistics
    t.adjust f p.now (t.nextTarget f p statistics)

/-! ## What a turn does -/

theorem roundedTarget_mem (f : ReceiverFormat) (milliseconds : ℚ) :
    8 ≤ roundedTarget f milliseconds ∧ roundedTarget f milliseconds ≤ 200 := by
  refine ⟨le_trans ?_ (le_roundUpToBlocks f.blockMilliseconds_pos 8 milliseconds),
    roundUpToBlocks_le ..⟩
  exact le_min (by norm_num) (le_max_left ..)

/-- The sink accepts every target between 8 and 200 ms. -/
theorem setLowLatencyTarget_ok (f : ReceiverFormat) {milliseconds : ℚ} (hlow : 8 ≤ milliseconds)
    (hhigh : milliseconds ≤ 200) :
    setLowLatencyTarget (UInt32.ofInt (llround (milliseconds * (1 / 1000) * f.sampleRate))) =
      .ok () := by
  have hge : (8000 : ℚ) ≤ f.sampleRate := by exact_mod_cast f.rate_ge
  have hle : (f.sampleRate : ℚ) ≤ 384000 := by exact_mod_cast f.rate_le
  have hfloor : 1 ≤ llround (milliseconds * (1 / 1000) * f.sampleRate) := by
    refine Int.le_floor.mpr ?_
    push_cast
    nlinarith
  have hceil : llround (milliseconds * (1 / 1000) * f.sampleRate) < 100000 := by
    refine Int.floor_lt.mpr ?_
    push_cast
    nlinarith
  generalize llround (milliseconds * (1 / 1000) * f.sampleRate) = frames at hfloor hceil
  refine if_neg fun hzero => ?_
  have hnat := congrArg UInt32.toNat hzero
  rw [UInt32.ofInt, Int.emod_eq_of_lt (by omega) (by omega), UInt32.toNat_ofNat'] at hnat
  have hzero : frames.toNat % 2 ^ 32 = 0 := hnat
  omega

theorem adjust_self (f : ReceiverFormat) (t : AdaptiveThread) (now : ℚ) :
    t.adjust f now t.currentTarget = t := by
  refine if_neg ?_
  rw [sub_self, abs_zero]
  norm_num

/-- The target changes, or the next one is too close to it. -/
theorem adjust_cases (f : ReceiverFormat) (t : AdaptiveThread) (now : ℚ) {next : ℚ}
    (hnext : 8 ≤ next ∧ next ≤ 200) :
    (t.adjust f now next).lastInstability = t.lastInstability ∧
      (t.adjust f now next).currentTarget = next ∧
      (t.adjust f now next).lastAdjustment = some now ∨
    next ≤ t.currentTarget + 1 / 1000000 ∧ t.adjust f now next = t := by
  unfold adjust
  split
  next hfar =>
    rw [setLowLatencyTarget_ok f hnext.1 hnext.2]
    refine Or.inl ⟨rfl, ?_, rfl⟩
    rw [currentTarget]
    ring
  next hnear =>
    have hle := (abs_le.mp (not_lt.mp hnear)).2
    exact Or.inr ⟨by linarith, rfl⟩

/-- Why the next target is what it is. -/
theorem nextTarget_cases (f : ReceiverFormat) (t : AdaptiveThread) (p : Poll)
    (statistics : AooLowLatencySinkStatistics) :
    t.currentTarget < requiredTarget f statistics ∧
      t.nextTarget f p statistics = requiredTarget f statistics ∨
    requiredTarget f statistics ≤ t.currentTarget ∧
      (t.nextTarget f p statistics = t.currentTarget ∨
        (∀ lastAdjustment, t.lastAdjustment = some lastAdjustment →
          30 ≤ p.now - lastAdjustment) ∧
        30 ≤ p.now - t.lastInstability ∧
        jitterMilliseconds statistics + 3 * f.blockMilliseconds ≤ t.currentTarget ∧
        t.nextTarget f p statistics =
          roundedTarget f (max 8 (t.currentTarget - f.blockMilliseconds))) := by
  unfold nextTarget
  simp only
  split
  next hdeficit => exact Or.inl ⟨hdeficit, rfl⟩
  next henough =>
    refine Or.inr ⟨not_lt.mp henough, ?_⟩
    split
    next hlower =>
      obtain ⟨hallowed, hquiet, hroom⟩ := hlower
      refine Or.inr ⟨fun lastAdjustment hlast => ?_, hquiet, by linarith, rfl⟩
      rw [hlast, Option.all_some, decide_eq_true_eq] at hallowed
      exact hallowed
    next => exact Or.inl rfl

end AdaptiveThread

/-! ## The thread follows the policy -/

/-- The thread and the stale datagrams at its last observation. -/
structure ObservedThread where
  thread : AdaptiveThread
  staleDatagramCount : UInt64 := 0

namespace ObservedThread

def step (f : ReceiverFormat) (s : ObservedThread) (p : Poll) : ObservedThread where
  thread := s.thread.poll f p
  staleDatagramCount := ((s.thread.observation p).map (·.staleDatagramCount)).getD
    s.staleDatagramCount

/-- Was something late, concealed or missing since the last observation? -/
def unstable (s : ObservedThread) (p : Poll) (statistics : AooLowLatencySinkStatistics) : Bool :=
  s.thread.hadInstability p || statistics.staleDatagramCount != s.staleDatagramCount

def demand (f : ReceiverFormat) (statistics : AooLowLatencySinkStatistics) : ℚ :=
  max statistics.p99ArrivalResidual statistics.p99CompletionResidual * 1000 +
    2 * f.blockMilliseconds

/-- What the policy sees of a turn. -/
def describe (f : ReceiverFormat) (s : ObservedThread) (p : Poll) : Option PlayoutStep :=
  (s.thread.observation p).map fun statistics =>
    { now := p.now
      unstable := s.unstable p statistics
      demand := demand f statistics
      p99 := max statistics.p99ArrivalResidual statistics.p99CompletionResidual * 1000
      before := s.thread.currentTarget
      after := (s.thread.poll f p).currentTarget }

/-- Stale datagrams come with a concealment, an underrun or a deficit, the required target is
not above the target by a millionth or less, and what needs more than the 200 ms that are
there comes with a concealment or an underrun. -/
structure VoicedBy (f : ReceiverFormat) (s : ObservedThread) (p : Poll)
    (statistics : AooLowLatencySinkStatistics) : Prop where
  late : statistics.staleDatagramCount ≠ s.staleDatagramCount →
    s.thread.hadInstability p = true ∨
      s.thread.currentTarget < AdaptiveThread.requiredTarget f statistics
  apart : s.thread.currentTarget < AdaptiveThread.requiredTarget f statistics →
    s.thread.currentTarget + 1 / 1000000 < AdaptiveThread.requiredTarget f statistics
  limit : s.thread.currentTarget = 200 → 200 < demand f statistics →
    s.thread.hadInstability p = true

def Voiced (f : ReceiverFormat) (s : ObservedThread) (p : Poll) : Prop :=
  ∀ statistics, s.thread.observation p = some statistics → s.VoicedBy f p statistics

instance (f : ReceiverFormat) (s : ObservedThread) (p : Poll)
    (statistics : AooLowLatencySinkStatistics) : Decidable (s.VoicedBy f p statistics) :=
  decidable_of_iff
    ((statistics.staleDatagramCount ≠ s.staleDatagramCount →
        s.thread.hadInstability p = true ∨
          s.thread.currentTarget < AdaptiveThread.requiredTarget f statistics) ∧
      (s.thread.currentTarget < AdaptiveThread.requiredTarget f statistics →
        s.thread.currentTarget + 1 / 1000000 < AdaptiveThread.requiredTarget f statistics) ∧
      (s.thread.currentTarget = 200 → 200 < demand f statistics →
        s.thread.hadInstability p = true))
    ⟨fun h => ⟨h.1, h.2.1, h.2.2⟩, fun h => ⟨h.late, h.apart, h.limit⟩⟩

instance (f : ReceiverFormat) (s : ObservedThread) (p : Poll) : Decidable (s.Voiced f p) :=
  inferInstanceAs (Decidable (∀ statistics ∈ s.thread.observation p, s.VoicedBy f p statistics))

/-- What holds between two turns. -/
structure Inv (s : ObservedThread) (history : List PlayoutStep) : Prop where
  at_most : s.thread.currentTarget ≤ 200
  timers : Timers history (some s.thread.lastInstability) s.thread.lastAdjustment

variable {f : ReceiverFormat} {s : ObservedThread} {p : Poll} {history : List PlayoutStep}
  {statistics : AooLowLatencySinkStatistics}

/-- The target that an observation asks for covers it. -/
theorem min_demand_le_requiredTarget (f : ReceiverFormat)
    (statistics : AooLowLatencySinkStatistics) :
    min 200 (demand f statistics) ≤ AdaptiveThread.requiredTarget f statistics := by
  have hle := min_le_roundUpToBlocks f.blockMilliseconds_pos 8
    (AdaptiveThread.jitterMilliseconds statistics + 2 * f.blockMilliseconds)
  refine (min_le_min_left 200 ?_).trans hle
  exact add_le_add_left (le_max_right 0 _) _

/-- An observation that restarts the 30 seconds sets the time. -/
theorem VoicedBy.restarts (hv : s.VoicedBy f p statistics) (hmost : s.thread.currentTarget ≤ 200)
    (hr : s.unstable p statistics = true ∨ s.thread.currentTarget < demand f statistics) :
    s.thread.hadInstability p = true ∨
      AdaptiveThread.requiredTarget f statistics > s.thread.currentTarget := by
  rcases hr with hu | hneed
  · rcases Bool.or_eq_true_iff.mp hu with hu | hlate
    · exact Or.inl hu
    · exact hv.late (bne_iff_ne.mp hlate)
  · by_cases hdeficit : s.thread.currentTarget < AdaptiveThread.requiredTarget f statistics
    · exact Or.inr hdeficit
    · -- what is needed is cut off at 200 ms, and the target is there
      have hle := (min_demand_le_requiredTarget f statistics).trans (not_lt.mp hdeficit)
      rcases le_total 200 (demand f statistics) with h200 | h200
      · rw [min_eq_left h200] at hle
        have htarget := le_antisymm hmost hle
        exact Or.inl (hv.limit htarget (htarget ▸ hneed))
      · rw [min_eq_right h200] at hle
        exact absurd hneed (not_lt.mpr hle)

/-- The target after a turn: raised, the same, or lowered after 30 quiet seconds. -/
theorem VoicedBy.poll_cases (hv : s.VoicedBy f p statistics)
    (hobs : s.thread.observation p = some statistics) :
    (s.thread.poll f p).lastInstability = (s.thread.note f p statistics).lastInstability ∧
      (s.thread.currentTarget < AdaptiveThread.requiredTarget f statistics ∧
          (s.thread.poll f p).currentTarget = AdaptiveThread.requiredTarget f statistics ∧
          (s.thread.poll f p).lastAdjustment = some p.now ∨
        AdaptiveThread.requiredTarget f statistics ≤ s.thread.currentTarget ∧
          ((s.thread.poll f p).currentTarget = s.thread.currentTarget ∧
              (s.thread.poll f p).lastAdjustment = s.thread.lastAdjustment ∨
            (∀ t, s.thread.lastAdjustment = some t → 30 ≤ p.now - t) ∧
              30 ≤ p.now - (s.thread.note f p statistics).lastInstability ∧
              AdaptiveThread.jitterMilliseconds statistics + 3 * f.blockMilliseconds ≤
                s.thread.currentTarget ∧
              (s.thread.poll f p).currentTarget = AdaptiveThread.roundedTarget f
                (max 8 (s.thread.currentTarget - f.blockMilliseconds)) ∧
              (s.thread.poll f p).lastAdjustment = some p.now)) := by
  have hpoll : s.thread.poll f p = (s.thread.note f p statistics).adjust f p.now
      ((s.thread.note f p statistics).nextTarget f p statistics) := by
    rw [AdaptiveThread.poll, hobs]
  rw [hpoll]
  rcases AdaptiveThread.nextTarget_cases f (s.thread.note f p statistics) p statistics with
    ⟨hdeficit, hnext⟩ | ⟨henough, hnext | ⟨hallowed, hquiet, hroom, hnext⟩⟩
  · rw [hnext]
    rcases AdaptiveThread.adjust_cases f (s.thread.note f p statistics) p.now
      (AdaptiveThread.roundedTarget_mem f _) with ⟨hi, ht, ha⟩ | ⟨hnear, -⟩
    · exact ⟨hi, Or.inl ⟨hdeficit, ht, ha⟩⟩
    · exact absurd (hv.apart hdeficit) (not_lt.mpr hnear)
  · rw [hnext, AdaptiveThread.adjust_self]
    exact ⟨rfl, Or.inr ⟨henough, Or.inl ⟨rfl, rfl⟩⟩⟩
  · rw [hnext]
    rcases AdaptiveThread.adjust_cases f (s.thread.note f p statistics) p.now
      (AdaptiveThread.roundedTarget_mem f _) with ⟨hi, ht, ha⟩ | ⟨-, hres⟩
    · exact ⟨hi, Or.inr ⟨henough, Or.inr ⟨hallowed, hquiet, hroom, ht, ha⟩⟩⟩
    · rw [hres]
      exact ⟨rfl, Or.inr ⟨henough, Or.inl ⟨rfl, rfl⟩⟩⟩

/-- One turn obeys the policy. -/
theorem Inv.obeys (h : Inv s history) (hv : s.VoicedBy f p statistics)
    (hobs : s.thread.observation p = some statistics) {e : PlayoutStep}
    (he : s.describe f p = some e) : ObeysPolicy f.blockMilliseconds history e := by
  rw [describe, hobs, Option.map_some] at he
  cases he
  have hmost := h.at_most
  have hcovers := min_demand_le_requiredTarget f statistics
  have hrequired := AdaptiveThread.roundedTarget_mem f
    (AdaptiveThread.jitterMilliseconds statistics + 2 * f.blockMilliseconds)
  obtain ⟨-, ⟨hdeficit, ht, -⟩ | ⟨henough, ⟨ht, -⟩ | ⟨ha, hi, hroom, ht, -⟩⟩⟩ :=
    hv.poll_cases hobs
  · refine ⟨?_, fun _ => ?_, fun hlt => ?_⟩
    · rw [ht]
      exact hrequired
    · rw [ht]
      exact hcovers
    · rw [ht] at hlt
      exact absurd hdeficit (not_lt.mpr hlt.le)
  · refine ⟨?_, fun _ => ?_, fun hlt => ?_⟩
    · rw [ht]
      exact ⟨hrequired.1.trans henough, hmost⟩
    · rw [ht]
      exact hcovers.trans henough
    · rw [ht] at hlt
      exact absurd hlt (lt_irrefl _)
  · have hquiet : ¬ (s.thread.hadInstability p = true ∨
        AdaptiveThread.requiredTarget f statistics > s.thread.currentTarget) := by
      intro hu
      rw [AdaptiveThread.note, if_pos hu, sub_self] at hi
      norm_num at hi
    rw [AdaptiveThread.note, if_neg hquiet] at hi
    have hstable := fun hr => hquiet (hv.restarts hmost hr)
    have hblock := f.blockMilliseconds_pos
    have hnext : s.thread.currentTarget - f.blockMilliseconds ≤
        AdaptiveThread.roundedTarget f (max 8 (s.thread.currentTarget - f.blockMilliseconds)) :=
      (le_min (by linarith) (le_max_right ..)).trans (min_le_roundUpToBlocks hblock 8 _)
    refine ⟨?_, fun hneed => absurd (Or.inr hneed) hstable, fun _ => ⟨?_, ?_, hstable, ?_⟩⟩
    · rw [ht]
      exact AdaptiveThread.roundedTarget_mem f _
    · rw [ht]
      exact hnext
    · rw [ht]
      have hjitter : max 0 (max statistics.p99ArrivalResidual statistics.p99CompletionResidual *
          1000) = AdaptiveThread.jitterMilliseconds statistics := rfl
      rw [hjitter]
      linarith
    · refine h.timers.elapsed (fun t hlast => ?_) ha
      cases hlast
      exact hi

/-- One turn keeps the invariant. -/
theorem Inv.step (h : Inv s history) (hv : s.Voiced f p) (hpast : ∀ q ∈ history, q.now ≤ p.now) :
    Inv (s.step f p) (history ++ (s.describe f p).toList) := by
  cases hobs : s.thread.observation p with
  | none =>
    have hpoll : s.thread.poll f p = s.thread := by rw [AdaptiveThread.poll, hobs]
    rw [describe, hobs, Option.map_none, Option.toList_none, List.append_nil]
    unfold ObservedThread.step
    rw [hpoll]
    exact ⟨h.at_most, h.timers⟩
  | some statistics =>
    have hv := hv statistics hobs
    obtain ⟨hi, hcases⟩ := hv.poll_cases hobs
    rw [describe, hobs, Option.map_some, Option.toList_some]
    refine ⟨?_, h.timers.snoc hpast ?_ ?_⟩
    · show (s.thread.poll f p).currentTarget ≤ 200
      rcases hcases with ⟨-, ht, -⟩ | ⟨-, ⟨ht, -⟩ | ⟨-, -, -, ht, -⟩⟩
      · exact ht ▸ (AdaptiveThread.roundedTarget_mem f _).2
      · exact ht ▸ h.at_most
      · exact ht ▸ (AdaptiveThread.roundedTarget_mem f _).2
    · show some (s.thread.poll f p).lastInstability = _ ∨
        some (s.thread.poll f p).lastInstability = _ ∧ _
      rw [hi, AdaptiveThread.note]
      split
      next => exact Or.inl rfl
      next hquiet => exact Or.inr ⟨rfl, fun hr => hquiet (hv.restarts h.at_most hr)⟩
    · rcases hcases with ⟨-, -, ha⟩ | ⟨-, ⟨ht, ha⟩ | ⟨-, -, -, -, ha⟩⟩
      · exact Or.inl ha
      · exact Or.inr ⟨ha, ht⟩
      · exact Or.inl ha

end ObservedThread

/-! ## Both follow the policy -/

/-- **The adaptive thread follows the policy** from a target of at most 200 ms on. -/
theorem ObservedThread.thread_followsPolicy (f : ReceiverFormat) (targetLatencySeconds start : ℚ)
    (htarget : targetLatencySeconds * 1000 ≤ 200) (ps : List Poll)
    (hsorted : (ps.map Poll.now).Pairwise (· ≤ ·))
    (hv : StepsAll (ObservedThread.step f) (ObservedThread.Voiced f)
      ⟨{ targetLatencySeconds, lastInstability := start }, 0⟩ ps) :
    FollowsPolicy f.blockMilliseconds
      (playoutTrace (ObservedThread.step f) (ObservedThread.describe f)
        ⟨{ targetLatencySeconds, lastInstability := start }, 0⟩ ps) := by
  refine followsPolicy_run (I := ObservedThread.Inv) (C := ObservedThread.Voiced f)
    (fun s p e he => ?_) (fun s h p e hI hC he _ => ?_) (fun s h p hI hC hpast => hI.step hC hpast)
    ps _ [] ⟨htarget, ?_⟩ hv hsorted (fun _ hp => absurd hp List.not_mem_nil)
    (followsPolicy_nil _)
  · obtain ⟨statistics, -, rfl⟩ := Option.map_eq_some_iff.mp he
    rfl
  · obtain ⟨statistics, hobs, -⟩ := Option.map_eq_some_iff.mp he
    exact hI.obeys (hC statistics hobs) hobs he
  · exact ⟨fun _ hp => absurd hp List.not_mem_nil, fun _ hp => absurd hp List.not_mem_nil⟩

/-- **The adaptive target follows the policy** in every run of the controller and of the
thread: with times that do not decrease, from a target of at most 200 ms on, as long as what
restarts the 30 seconds is one of the things that the code looks at. -/
theorem adaptiveTarget_followsPolicy (sampleRate : ℚ) (blockSize : Int) (rtt : Option ℚ)
    (f : ReceiverFormat) (targetLatencySeconds start : ℚ) :
    let s := ObservedController.fresh sampleRate blockSize rtt
    let t : ObservedThread := ⟨{ targetLatencySeconds, lastInstability := start }, 0⟩
    (0 < s.controller.blockDurationMilliseconds →
      ∀ os : List Observation, (os.map Observation.now).Pairwise (· ≤ ·) →
        StepsAll ObservedController.step ObservedController.Voiced s os →
          FollowsPolicy s.controller.blockDurationMilliseconds
            (playoutTrace ObservedController.step (fun s o => some (s.describe o)) s os)) ∧
    (targetLatencySeconds * 1000 ≤ 200 →
      ∀ ps : List Poll, (ps.map Poll.now).Pairwise (· ≤ ·) →
        StepsAll (ObservedThread.step f) (ObservedThread.Voiced f) t ps →
          FollowsPolicy f.blockMilliseconds
            (playoutTrace (ObservedThread.step f) (ObservedThread.describe f) t ps)) :=
  ⟨fun hblock os hsorted hv =>
      ObservedController.controller_followsPolicy sampleRate blockSize rtt hblock os hsorted hv,
    fun htarget ps hsorted hv =>
      ObservedThread.thread_followsPolicy f targetLatencySeconds start htarget ps hsorted hv⟩

/-- A stream of 64 frames at 48 kHz, for both. The controller lowers its target of 160 / 3 ms after
34 s, raises it for a residual of 120 ms, and lowers it again 40 s later, as a late packet came
in between. The thread raises its target for a p99 of 60 ms, lowers it 30 s after a concealment, and
raises it for a p99 of 90 ms. -/
theorem adaptiveTarget_raisedAndLowered :
    let s := ObservedController.fresh 48000 64 (some 100)
    let f : ReceiverFormat := ⟨64, 48000, by decide, by decide, by decide⟩
    let t : ObservedThread := ⟨{ targetLatencySeconds := 48 / 1000, lastInstability := 0 }, 0⟩
    let os : List Observation := [⟨10, false, false, false, 1⟩, ⟨10, false, false, false, 35⟩,
      ⟨120, false, false, false, 40⟩, ⟨20, true, false, false, 45⟩, ⟨20, false, false, false, 80⟩]
    let ps : List Poll := [⟨2, some ⟨1, 60 / 1000, 0, 0⟩, 0, 0, 1⟩,
      ⟨2, some ⟨2, 20 / 1000, 0, 0⟩, 1, 0, 10⟩, ⟨2, some ⟨3, 20 / 1000, 0, 0⟩, 1, 0, 31⟩,
      ⟨2, some ⟨4, 20 / 1000, 0, 0⟩, 1, 0, 40⟩, ⟨2, some ⟨5, 90 / 1000, 0, 0⟩, 1, 0, 41⟩]
    let controlled := playoutTrace ObservedController.step (fun s o => some (s.describe o)) s os
    let polled := playoutTrace (ObservedThread.step f) (ObservedThread.describe f) t ps
    (FollowsPolicy s.controller.blockDurationMilliseconds controlled ∧
        controlled.map PlayoutStep.after = [160 / 3, 52, 368 / 3, 368 / 3, 364 / 3]) ∧
      FollowsPolicy f.blockMilliseconds polled ∧
        polled.map PlayoutStep.after = [188 / 3, 188 / 3, 188 / 3, 184 / 3, 280 / 3] := by
  intro s f t os ps controlled polled
  obtain ⟨hcontroller, hthread⟩ :=
    adaptiveTarget_followsPolicy 48000 64 (some 100) f (48 / 1000) 0
  refine ⟨⟨hcontroller ?_ os ?_ ?_, ?_⟩, hthread ?_ ps ?_ ?_, ?_⟩
  · decide +kernel
  · decide +kernel
  · decide +kernel
  · decide +kernel
  · norm_num
  · decide +kernel
  · decide +kernel
  · decide +kernel

/-- A late packet at 29 s does not keep the thread from lowering the target at 31 s. The
controller lowers a target of 200 ms at an observation that needs more than that. -/
theorem latePacket_lowered :
    let f : ReceiverFormat := ⟨64, 48000, by decide, by decide, by decide⟩
    let t : ObservedThread := ⟨{ targetLatencySeconds := 48 / 1000, lastInstability := 0 }, 0⟩
    let ps : List Poll := [⟨2, some ⟨1, 0, 0, 0⟩, 0, 0, 0⟩, ⟨2, some ⟨2, 0, 0, 1⟩, 0, 0, 29⟩,
      ⟨2, some ⟨3, 0, 0, 1⟩, 0, 0, 31⟩]
    let s := ObservedController.fresh 48000 64 (some 400)
    let os : List Observation := [⟨-10, false, false, false, 0⟩, ⟨-10, false, false, false, 29⟩,
      ⟨198, false, false, false, 31⟩]
    ¬ FollowsPolicy f.blockMilliseconds
        (playoutTrace (ObservedThread.step f) (ObservedThread.describe f) t ps) ∧
      ¬ FollowsPolicy s.controller.blockDurationMilliseconds
        (playoutTrace ObservedController.step (fun s o => some (s.describe o)) s os) := by
  intro f t ps s os
  constructor
  · intro h
    have htrace : playoutTrace (ObservedThread.step f) (ObservedThread.describe f) t ps =
        [⟨0, false, 8 / 3, 0, 48, 48⟩, ⟨29, true, 8 / 3, 0, 48, 48⟩] ++
          ⟨31, false, 8 / 3, 0, 48, 140 / 3⟩ :: [] := by
      decide +kernel
    obtain ⟨-, -, -, hhistory⟩ := (h _ _ _ htrace).lowered (by norm_num)
    have hlate := hhistory ⟨29, true, 8 / 3, 0, 48, 48⟩ (by simp) (Or.inl (Or.inl rfl))
    norm_num at hlate
  · intro h
    have htrace : playoutTrace ObservedController.step (fun s o => some (s.describe o)) s os =
        [⟨0, false, -10 + 8 / 3, -10, 200, 200⟩, ⟨29, false, -10 + 8 / 3, -10, 200, 200⟩] ++
          ⟨31, false, 198 + 8 / 3, 4846 / 25, 200, 596 / 3⟩ :: [] := by
      decide +kernel
    have hraised := (h _ _ _ htrace).raised (by norm_num)
    norm_num at hraised

end Aoo.Apple
