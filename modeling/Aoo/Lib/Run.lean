import Mathlib.Tactic.Ring
import Mathlib.Algebra.Order.Ring.Int

/-!
# Runs of a fallible transition function

`run step s as` feeds the actions `as` to `step` one after the other and stops
at the first action that fails. The rules below are all a safety proof over
runs needs: `run_invariant` turns a one-step preservation lemma into a fact
about every state a run reaches, and `run_append` cuts a run at any moment.

`RunAll` says that every step of a run meets a condition on its action and
the state before it, which is how an assumption about traffic is phrased when
it talks about what has already been received. `StepsAll` is the same for a step
function that cannot fail.
-/

namespace Aoo.Lib

variable {σ α ε : Type} {step : σ → α → Except ε σ}

/-- Feed the actions to `step`, stopping at the first failure. -/
def run (step : σ → α → Except ε σ) : σ → List α → Except ε σ
  | s, [] => .ok s
  | s, a :: as =>
    match step s a with
    | .ok s' => run step s' as
    | .error e => .error e

@[simp] theorem run_nil (s : σ) : run step s [] = .ok s := rfl

theorem run_cons_ok {s s₂ : σ} {a : α} {as : List α}
    (h : run step s (a :: as) = .ok s₂) :
    ∃ s₁, step s a = .ok s₁ ∧ run step s₁ as = .ok s₂ := by
  rw [run] at h
  split at h
  next s₁ hs => exact ⟨s₁, hs, h⟩
  next => exact absurd h (by simp)

/-- A run over `as ++ bs` is a run over `bs` from where `as` ends. -/
theorem run_append {s s₁ : σ} {as : List α} (bs : List α)
    (h : run step s as = .ok s₁) : run step s (as ++ bs) = run step s₁ bs := by
  induction as generalizing s with
  | nil =>
    rw [run_nil] at h
    injection h with h
    rw [List.nil_append, h]
  | cons a as ih =>
    obtain ⟨s', hs, hr⟩ := run_cons_ok h
    rw [List.cons_append, run, hs]
    exact ih hr

/-- After a failure nothing more is read. -/
theorem run_error_append {s : σ} {e : ε} {as : List α} (bs : List α)
    (h : run step s as = .error e) : run step s (as ++ bs) = .error e := by
  induction as generalizing s with
  | nil => cases h
  | cons a as ih =>
    rw [run] at h
    rw [List.cons_append, run]
    split at h
    next s' hs => exact ih h
    next e' he => exact h

/-- **A run of runs is one run**: it does not matter how the actions are cut into
pieces. -/
theorem run_flatten (ass : List (List α)) :
    ∀ s : σ, run (run step) s ass = run step s ass.flatten := by
  induction ass with
  | nil =>
    intro s
    rfl
  | cons as ass ih =>
    intro s
    rw [run, List.flatten_cons]
    split
    next s' hs => rw [run_append _ hs, ih]
    next e he => rw [run_error_append _ he]

/-- What one step preserves for actions that satisfy `P`, a whole run
preserves. -/
theorem run_invariant {I : σ → Prop} {P : α → Prop}
    (hstep : ∀ s a s', P a → I s → step s a = .ok s' → I s')
    {as : List α} {s s' : σ} (hP : ∀ a ∈ as, P a) (hI : I s)
    (h : run step s as = .ok s') : I s' := by
  induction as generalizing s with
  | nil =>
    rw [run_nil] at h
    injection h with h
    exact h ▸ hI
  | cons a as ih =>
    obtain ⟨s₁, hs, hr⟩ := run_cons_ok h
    exact ih (fun b hb => hP b (List.mem_cons_of_mem _ hb))
      (hstep s a s₁ (hP a (List.mem_cons_self ..)) hI hs) hr

/-- A run succeeds if each step does and keeps an invariant, which may speak
about the actions that are still to come. -/
theorem run_total {I : σ → List α → Prop}
    (hstep : ∀ s a as, I s (a :: as) → ∃ s', step s a = .ok s' ∧ I s' as)
    {s : σ} {as : List α} (h : I s as) : ∃ s', run step s as = .ok s' ∧ I s' [] := by
  induction as generalizing s with
  | nil => exact ⟨s, rfl, h⟩
  | cons a as ih =>
    obtain ⟨s₁, hs, h₁⟩ := hstep s a as h
    obtain ⟨s₂, hr, h₂⟩ := ih h₁
    exact ⟨s₂, by rw [run, hs]; exact hr, h₂⟩

/-- Every step of the run meets `C` in the state before it. Steps after a
failed one are not looked at. -/
def RunAll (step : σ → α → Except ε σ) (C : σ → α → Prop) : σ → List α → Prop
  | _, [] => True
  | s, a :: as => C s a ∧ ∀ s', step s a = .ok s' → RunAll step C s' as

/-- If a step that succeeds meets `C`, so do all steps of a run that succeeds. -/
theorem runAll_of_run {C : σ → α → Prop} (hstep : ∀ s a s', step s a = .ok s' → C s a)
    {as : List α} {s s' : σ} (h : run step s as = .ok s') : RunAll step C s as := by
  induction as generalizing s with
  | nil => trivial
  | cons a as ih =>
    obtain ⟨s₁, hs, hr⟩ := run_cons_ok h
    refine ⟨hstep s a s₁ hs, fun s₂ hs₂ => ?_⟩
    rw [hs] at hs₂
    cases hs₂
    exact ih hr

/-- If a step succeeds exactly when it meets `C`, a run succeeds exactly when
each of its steps does. -/
theorem run_ok_iff {I : σ → Prop} {C : σ → α → Prop}
    (hok : ∀ s a, I s → ((∃ s', step s a = .ok s') ↔ C s a))
    (hstep : ∀ s a s', I s → step s a = .ok s' → I s')
    {as : List α} {s : σ} (hI : I s) :
    (∃ s', run step s as = .ok s') ↔ RunAll step C s as := by
  induction as generalizing s with
  | nil => exact ⟨fun _ => trivial, fun _ => ⟨s, rfl⟩⟩
  | cons a as ih =>
    constructor
    · rintro ⟨s₂, h⟩
      obtain ⟨s₁, hs, hr⟩ := run_cons_ok h
      refine ⟨(hok s a hI).mp ⟨s₁, hs⟩, fun s' hs' => ?_⟩
      have heq : s₁ = s' := by
        rw [hs] at hs'
        injection hs'
      exact heq ▸ (ih (hstep s a s₁ hI hs)).mp ⟨s₂, hr⟩
    · rintro ⟨hC, hrest⟩
      obtain ⟨s₁, hs⟩ := (hok s a hI).mpr hC
      obtain ⟨s₂, hr⟩ := (ih (hstep s a s₁ hI hs)).mpr (hrest s₁ hs)
      exact ⟨s₂, by rw [run, hs]; exact hr⟩

/-! ## Total steps -/

/-- Every step of the run meets `C` in the state before it. -/
def StepsAll (step : σ → α → σ) (C : σ → α → Prop) : σ → List α → Prop
  | _, [] => True
  | s, a :: as => C s a ∧ StepsAll step C (step s a) as

/-- `StepsAll` can be evaluated if the condition can. -/
instance decidableStepsAll (step : σ → α → σ) (C : σ → α → Prop) [∀ s a, Decidable (C s a)] :
    ∀ s as, Decidable (StepsAll step C s as)
  | _, [] => .isTrue trivial
  | s, a :: as =>
    haveI := decidableStepsAll step C (step s a) as
    inferInstanceAs (Decidable (C s a ∧ StepsAll step C (step s a) as))

/-- The same, with the steps as ends of prefixes. -/
theorem stepsAll_iff {step : σ → α → σ} {C : σ → α → Prop} {s : σ} {as : List α} :
    StepsAll step C s as ↔ ∀ bs a, bs ++ [a] <+: as → C (bs.foldl step s) a := by
  induction as generalizing s with
  | nil =>
    refine iff_of_true trivial fun bs a h => ?_
    exact absurd (List.prefix_nil.mp h) (by simp)
  | cons a as ih =>
    rw [StepsAll, ih]
    constructor
    · intro ⟨hC, hrest⟩ bs b hbs
      cases bs with
      | nil =>
        obtain ⟨rfl, -⟩ := List.cons_prefix_cons.mp hbs
        exact hC
      | cons c cs =>
        obtain ⟨rfl, htail⟩ := List.cons_prefix_cons.mp hbs
        exact hrest cs b htail
    · intro hall
      refine ⟨hall [] a (List.cons_prefix_cons.mpr ⟨rfl, List.nil_prefix⟩), fun bs b hbs => ?_⟩
      exact hall (a :: bs) b (List.cons_prefix_cons.mpr ⟨rfl, hbs⟩)

/-- A condition on the steps of a run follows from another one while an invariant holds, which
the other one preserves. -/
theorem StepsAll.imp {step : σ → α → σ} {I : σ → Prop} {C D : σ → α → Prop}
    (himp : ∀ s a, I s → C s a → D s a) (hstep : ∀ s a, I s → C s a → I (step s a)) :
    ∀ (as : List α) {s : σ}, I s → StepsAll step C s as → StepsAll step D s as := by
  intro as
  induction as with
  | nil =>
    intro s _ _
    exact trivial
  | cons a as ih =>
    intro s hI h
    exact ⟨himp s a hI h.1, ih (hstep s a hI h.1) h.2⟩

/-- Two conditions on the steps of a run that say the same while an invariant holds, which
each of them preserves. -/
theorem stepsAll_congr {step : σ → α → σ} {I : σ → Prop} {C D : σ → α → Prop}
    (hiff : ∀ s a, I s → (C s a ↔ D s a)) (hstep : ∀ s a, I s → C s a → I (step s a))
    (as : List α) {s : σ} (hI : I s) : StepsAll step C s as ↔ StepsAll step D s as :=
  ⟨StepsAll.imp (fun s a h => (hiff s a h).mp) hstep as hI,
    StepsAll.imp (fun s a h => (hiff s a h).mpr)
      (fun s a h hD => hstep s a h ((hiff s a h).mpr hD)) as hI⟩

/-- What one step preserves under a condition on its action and the state before it holds
in every state of a run whose steps all meet the condition. -/
theorem StepsAll.invariant {step : σ → α → σ} {I : σ → Prop} {C : σ → α → Prop}
    (hstep : ∀ s a, I s → C s a → I (step s a)) {s : σ} (hs : I s) {as : List α}
    (hC : StepsAll step C s as) : ∀ bs, bs <+: as → I (bs.foldl step s) := by
  intro bs hbs
  induction as generalizing s bs with
  | nil =>
    rw [List.prefix_nil.mp hbs]
    exact hs
  | cons a as ih =>
    cases bs with
    | nil => exact hs
    | cons b bs =>
      obtain ⟨rfl, htail⟩ := List.cons_prefix_cons.mp hbs
      exact ih (hstep s b hs hC.1) hC.2 bs htail

/-- **When an invariant holds throughout**: if a step from a good state keeps `I` exactly
under `C`, then `I` holds in every state of a run exactly if every step meets `C`. `J` is
what else the step lemma needs to know of a good state. -/
theorem invariant_iff_stepsAll {step : σ → α → σ} {I J : σ → Prop} {C : σ → α → Prop}
    (hiff : ∀ s a, J s → I s → (I (step s a) ↔ C s a))
    (hJ : ∀ s a, J s → I s → C s a → J (step s a)) :
    ∀ (as : List α) {s : σ}, J s → I s →
      ((∀ bs, bs <+: as → I (bs.foldl step s)) ↔ StepsAll step C s as) := by
  intro as
  induction as with
  | nil =>
    intro s _ hs
    refine iff_of_true (fun bs hbs => ?_) trivial
    rw [List.prefix_nil.mp hbs]
    exact hs
  | cons a as ih =>
    intro s hj hs
    refine ⟨fun h => ?_, fun ⟨hC, hrest⟩ bs hbs => ?_⟩
    · have hfirst : I (step s a) := h [a] (List.cons_prefix_cons.mpr ⟨rfl, List.nil_prefix⟩)
      have hC := (hiff s a hj hs).mp hfirst
      refine ⟨hC, (ih (hJ s a hj hs hC) hfirst).mp fun bs hbs => ?_⟩
      exact h (a :: bs) (List.cons_prefix_cons.mpr ⟨rfl, hbs⟩)
    · cases bs with
      | nil => exact hs
      | cons b bs =>
        obtain ⟨rfl, htail⟩ := List.cons_prefix_cons.mp hbs
        have hfirst := (hiff s b hj hs).mpr hC
        exact (ih (hJ s b hj hs hC) hfirst).mpr hrest bs htail

end Aoo.Lib
