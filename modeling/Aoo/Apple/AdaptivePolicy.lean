import Aoo.Lib.Run
import Mathlib.Data.Rat.Floor
import Mathlib.Tactic.Linarith

/-!
# The policy of the adaptive target

`doc/low_latency_profiles.md`, "Adaptive Wireless". The playout target of a wireless
stream follows what is observed: it is raised at once where an observation needs more,
and lowered by one block when nothing went wrong for 30 seconds. It never leaves
8 to 200 ms.

`ObeysPolicy` says so of one observation and those before it, `FollowsPolicy` of a
history. The controller of the Swift package and the thread of the bridge each keep two
times in place of the history; `Timers` says what these have to do with it, and
`followsPolicy_run` turns what one observation preserves into a fact about every run.

Times are in seconds and everything else in milliseconds, as exact numbers.
-/

namespace Aoo.Apple

/-! ## Whole blocks -/

/-- Milliseconds between `low` and 200, rounded up to whole blocks. -/
def roundUpToBlocks (low block milliseconds : ℚ) : ℚ :=
  let bounded := min 200 (max low milliseconds)
  let blocks := max 1 ⌈bounded / block⌉
  min 200 (blocks * block)

theorem roundUpToBlocks_le (low block milliseconds : ℚ) :
    roundUpToBlocks low block milliseconds ≤ 200 := min_le_left _ _

/-- Nothing is lost below 200 ms. -/
theorem le_roundUpToBlocks {block : ℚ} (hblock : 0 < block) (low milliseconds : ℚ) :
    min 200 (max low milliseconds) ≤ roundUpToBlocks low block milliseconds := by
  refine le_min (min_le_left _ _) ?_
  have hceil := Int.le_ceil (min 200 (max low milliseconds) / block)
  have hmax : (⌈min 200 (max low milliseconds) / block⌉ : ℚ) ≤
      (max 1 ⌈min 200 (max low milliseconds) / block⌉ : ℤ) := by
    exact_mod_cast le_max_right _ _
  exact (div_le_iff₀ hblock).mp (hceil.trans hmax)

theorem min_le_roundUpToBlocks {block : ℚ} (hblock : 0 < block) (low milliseconds : ℚ) :
    min 200 milliseconds ≤ roundUpToBlocks low block milliseconds :=
  (min_le_min_left 200 (le_max_right low milliseconds)).trans (le_roundUpToBlocks hblock ..)

/-! ## The policy -/

/-- What an observation says, and the target before and after it. -/
structure PlayoutStep where
  now : ℚ
  /-- a late packet, a concealment or an underrun -/
  unstable : Bool
  /-- the residual and two blocks -/
  demand : ℚ
  p99 : ℚ
  before : ℚ
  after : ℚ
  deriving DecidableEq, Repr

/-- Does the observation restart the 30 seconds? It does if something went wrong, and if it
needs more than the target. -/
def PlayoutStep.Restarts (e : PlayoutStep) : Prop := e.unstable = true ∨ e.before < e.demand

/-- The target after an observation that comes after a history of others. -/
structure ObeysPolicy (block : ℚ) (history : List PlayoutStep) (e : PlayoutStep) : Prop where
  bounded : 8 ≤ e.after ∧ e.after ≤ 200
  raised : e.before < e.demand → min 200 e.demand ≤ e.after
  lowered : e.after < e.before →
    e.before - block ≤ e.after ∧ max 0 e.p99 + 2 * block ≤ e.after ∧ ¬ e.Restarts ∧
      ∀ p ∈ history, p.Restarts ∨ p.after ≠ p.before → p.now + 30 ≤ e.now

/-- Every observation of the history obeys the policy. -/
def FollowsPolicy (block : ℚ) (history : List PlayoutStep) : Prop :=
  ∀ earlier e later, history = earlier ++ e :: later → ObeysPolicy block earlier e

theorem followsPolicy_nil (block : ℚ) : FollowsPolicy block [] := by
  intro earlier e later h
  cases earlier <;> cases h

theorem FollowsPolicy.snoc {block : ℚ} {history : List PlayoutStep} {e : PlayoutStep}
    (h : FollowsPolicy block history) (he : ObeysPolicy block history e) :
    FollowsPolicy block (history ++ [e]) := by
  intro earlier p later heq
  rcases List.append_eq_append_iff.mp heq with ⟨as, has, hlast⟩ | ⟨bs, hbs, hlast⟩
  · cases as with
    | nil =>
      rw [List.append_nil] at has
      injection hlast with hp
      exact hp ▸ has.symm ▸ he
    | cons a as =>
      injection hlast with _ hnil
      cases as <;> cases hnil
  · cases bs with
    | nil =>
      rw [List.append_nil] at hbs
      injection hlast with hp
      exact hp ▸ hbs ▸ he
    | cons b bs =>
      injection hlast with hp
      exact h earlier p bs (hp ▸ hbs)

/-! ## Two times in place of a history -/

/-- The times of the last observation that restarts the 30 seconds and of the last change of
the target, or later ones. -/
structure Timers (history : List PlayoutStep) (instability adjustment : Option ℚ) : Prop where
  restarted : ∀ p ∈ history, p.Restarts → ∃ t, instability = some t ∧ p.now ≤ t
  adjusted : ∀ p ∈ history, p.after ≠ p.before → ∃ t, adjustment = some t ∧ p.now ≤ t

variable {history : List PlayoutStep} {instability adjustment : Option ℚ} {e : PlayoutStep}

/-- An observation that sets the times it has to. -/
theorem Timers.snoc (h : Timers history instability adjustment)
    (hnow : ∀ p ∈ history, p.now ≤ e.now) {instability' adjustment' : Option ℚ}
    (hi : instability' = some e.now ∨ instability' = instability ∧ ¬ e.Restarts)
    (ha : adjustment' = some e.now ∨ adjustment' = adjustment ∧ e.after = e.before) :
    Timers (history ++ [e]) instability' adjustment' := by
  refine ⟨fun p hp hr => ?_, fun p hp hc => ?_⟩
  · rcases List.mem_append.mp hp with hp | hp
    · rcases hi with rfl | ⟨rfl, -⟩
      · exact ⟨e.now, rfl, hnow p hp⟩
      · exact h.restarted p hp hr
    · rw [List.mem_singleton.mp hp] at hr ⊢
      rcases hi with rfl | ⟨-, hno⟩
      · exact ⟨e.now, rfl, le_refl _⟩
      · exact absurd hr hno
  · rcases List.mem_append.mp hp with hp | hp
    · rcases ha with rfl | ⟨rfl, -⟩
      · exact ⟨e.now, rfl, hnow p hp⟩
      · exact h.adjusted p hp hc
    · rw [List.mem_singleton.mp hp] at hc ⊢
      rcases ha with rfl | ⟨-, hsame⟩
      · exact ⟨e.now, rfl, le_refl _⟩
      · exact absurd hsame hc

/-- Where both times are 30 seconds ago, so is everything in the history. -/
theorem Timers.elapsed (h : Timers history instability adjustment) {now : ℚ}
    (hi : ∀ t, instability = some t → 30 ≤ now - t)
    (ha : ∀ t, adjustment = some t → 30 ≤ now - t) :
    ∀ p ∈ history, p.Restarts ∨ p.after ≠ p.before → p.now + 30 ≤ now := by
  rintro p hp (hr | hc)
  · obtain ⟨t, ht, hle⟩ := h.restarted p hp hr
    linarith [hi t ht]
  · obtain ⟨t, ht, hle⟩ := h.adjusted p hp hc
    linarith [ha t ht]

/-! ## Runs -/

section Run

variable {σ ω : Type} {step : σ → ω → σ} {describe : σ → ω → Option PlayoutStep} {now : ω → ℚ}
  {block : ℚ}

/-- The observations of a run. -/
def playoutTrace (step : σ → ω → σ) (describe : σ → ω → Option PlayoutStep) :
    σ → List ω → List PlayoutStep
  | _, [] => []
  | s, o :: os => (describe s o).toList ++ playoutTrace step describe (step s o) os

/-- **A run follows the policy** if each of its steps does and keeps an invariant that speaks
about the history, under a condition on the steps and with times that do not decrease. -/
theorem followsPolicy_run {I : σ → List PlayoutStep → Prop} {C : σ → ω → Prop}
    (hnow : ∀ s o e, describe s o = some e → e.now = now o)
    (hobeys : ∀ s h o e, I s h → C s o → describe s o = some e → (∀ p ∈ h, p.now ≤ now o) →
      ObeysPolicy block h e)
    (hkeep : ∀ s h o, I s h → C s o → (∀ p ∈ h, p.now ≤ now o) →
      I (step s o) (h ++ (describe s o).toList)) :
    ∀ (os : List ω) (s : σ) (h : List PlayoutStep), I s h → Lib.StepsAll step C s os →
      (os.map now).Pairwise (· ≤ ·) → (∀ p ∈ h, ∀ o ∈ os, p.now ≤ now o) →
      FollowsPolicy block h → FollowsPolicy block (h ++ playoutTrace step describe s os) := by
  intro os
  induction os with
  | nil =>
    intro s h _ _ _ _ hfollows
    rw [playoutTrace, List.append_nil]
    exact hfollows
  | cons o os ih =>
    intro s h hI hC hsorted hbefore hfollows
    rw [List.map_cons, List.pairwise_cons] at hsorted
    have hpast : ∀ p ∈ h, p.now ≤ now o := fun p hp => hbefore p hp o (List.mem_cons_self ..)
    rw [playoutTrace, ← List.append_assoc]
    refine ih (step s o) _ (hkeep s h o hI hC.1 hpast) hC.2 hsorted.2 (fun p hp o' ho' => ?_) ?_
    · have hlater := hsorted.1 (now o') (List.mem_map_of_mem ho')
      rcases List.mem_append.mp hp with hp | hp
      · exact (hpast p hp).trans hlater
      · rw [hnow s o p (Option.mem_toList.mp hp)]
        exact hlater
    · cases hd : describe s o with
      | none =>
        rw [Option.toList_none, List.append_nil]
        exact hfollows
      | some e => exact hfollows.snoc (hobeys s h o e hI hC.1 hd hpast)

end Run

end Aoo.Apple
