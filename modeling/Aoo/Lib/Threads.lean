import Aoo.Lib.Run
import Mathlib.Algebra.BigOperators.Group.Finset.Basic
import Mathlib.Data.Fintype.Basic
import Mathlib.Tactic.Abel

/-!
# Threads over shared memory

Threads `ι` share a state `G`; each has a state `L` of its own, its program counter and its
local variables. `act` is one atomic step of one thread, with the choices that are not its
own (what an allocator returns, whether a weak compare-exchange fails for no reason). A run
feeds threads and choices to `act` in any order, so that what holds for all runs holds for
all interleavings.

`Sound` is a proof outline over such a system: an invariant `J` of the shared state, an
assertion `Ok` for each thread where it stands, and `Rely`, what a thread may count on while
the others go on. Both may talk about a ghost state that the program does not have.
`run_sound` turns it into an invariant of all runs: a step has to re-establish `J` and the
assertion of the thread that took it, and to stay within what the other threads rely on.

`emits` is what an observer sees of a run, and `run_simulates` says that it is a run of a simpler
system: each step of a thread is matched by the steps that it emits there.

Assertions that count threads are sums over all of them, and `sum_update` says what a step
of one thread does to such a sum.
-/

namespace Aoo.Lib

variable {ι G L α ε : Type} [DecidableEq ι]

/-- A shared state and the states of the threads. -/
structure Threads (ι G L : Type) where
  shared : G
  locals : ι → L

namespace Threads

/-- One step of the thread `e.1`. -/
def step (act : ι → α → G → L → Except ε (G × L)) (s : Threads ι G L) (e : ι × α) :
    Except ε (Threads ι G L) :=
  match act e.1 e.2 s.shared (s.locals e.1) with
  | .ok (g, l) => .ok ⟨g, Function.update s.locals e.1 l⟩
  | .error err => .error err

variable {act : ι → α → G → L → Except ε (G × L)}

theorem step_ok {s s' : Threads ι G L} {e : ι × α} (h : step act s e = .ok s') :
    ∃ g l, act e.1 e.2 s.shared (s.locals e.1) = .ok (g, l) ∧
      s' = ⟨g, Function.update s.locals e.1 l⟩ := by
  unfold step at h
  split at h
  next g l hact =>
    injection h with h
    exact ⟨g, l, hact, h.symm⟩
  next => cases h

theorem step_error {s : Threads ι G L} {e : ι × α} {err : ε} (h : step act s e = .error err) :
    act e.1 e.2 s.shared (s.locals e.1) = .error err := by
  unfold step at h
  split at h
  next => cases h
  next err' hact =>
    injection h with h
    rw [hact, h]

/-! ## Counting threads -/

/-- What a step of one thread does to a sum over all of them. -/
theorem sum_update {M : Type} [AddCommGroup M] [Fintype ι] (f : L → M) (t : ι → L) (i : ι)
    (l : L) : ∑ j, f (Function.update t i l j) = ∑ j, f (t j) - f (t i) + f l := by
  have hrest : ∑ j ∈ Finset.univ.erase i, f (Function.update t i l j) =
      ∑ j ∈ Finset.univ.erase i, f (t j) :=
    Finset.sum_congr rfl fun j hj => by rw [Function.update_of_ne (Finset.ne_of_mem_erase hj)]
  rw [← Finset.add_sum_erase _ _ (Finset.mem_univ i), hrest, Function.update_self,
    ← Finset.add_sum_erase _ (fun j => f (t j)) (Finset.mem_univ i)]
  abel

/-! ## Proof outlines -/

variable {γ : Type}

/-- The invariant holds, and each thread's assertion, for some ghost state. -/
def Sound (J : G → γ → Prop) (Ok : ι → G → γ → L → Prop) (s : Threads ι G L) : Prop :=
  ∃ c, J s.shared c ∧ ∀ i, Ok i s.shared c (s.locals i)

/-- What a step has to keep. -/
def Keeps (act : ι → α → G → L → Except ε (G × L)) (J : G → γ → Prop)
    (Ok : ι → G → γ → L → Prop) (Rely : ι → G → γ → G → γ → Prop) : Prop :=
  ∀ i a g c l g' l', J g c → Ok i g c l → act i a g l = .ok (g', l') →
    ∃ c', J g' c' ∧ Ok i g' c' l' ∧ ∀ j, j ≠ i → Rely j g c g' c'

/-- An assertion survives what the others do. -/
def Stable (Ok : ι → G → γ → L → Prop) (Rely : ι → G → γ → G → γ → Prop) : Prop :=
  ∀ i g c g' c' l, Ok i g c l → Rely i g c g' c' → Ok i g' c' l

variable {J : G → γ → Prop} {Ok : ι → G → γ → L → Prop} {Rely : ι → G → γ → G → γ → Prop}

theorem Sound.step (hkeeps : Keeps act J Ok Rely) (hstable : Stable Ok Rely)
    {s s' : Threads ι G L} {e : ι × α} (h : Sound J Ok s) (hs : step act s e = .ok s') :
    Sound J Ok s' := by
  obtain ⟨c, hJ, hOk⟩ := h
  obtain ⟨g, l, hact, rfl⟩ := step_ok hs
  obtain ⟨c', hJ', hOk', hrely⟩ := hkeeps _ _ _ _ _ _ _ hJ (hOk e.1) hact
  refine ⟨c', hJ', ?_⟩
  rw [Function.forall_update_iff s.locals (p := fun j l => Ok j g c' l)]
  exact ⟨hOk', fun j hj => hstable j _ _ _ _ _ (hOk j) (hrely j hj)⟩

/-- **The rule**: an outline whose steps keep it holds at every moment of every interleaving. -/
theorem run_sound (hkeeps : Keeps act J Ok Rely) (hstable : Stable Ok Rely)
    {s s' : Threads ι G L} {es : List (ι × α)} (h : Sound J Ok s)
    (hr : run (Threads.step act) s es = .ok s') : Sound J Ok s' :=
  run_invariant (P := fun _ => True) (fun _ _ _ _ hI hs => Sound.step hkeeps hstable hI hs)
    (fun _ _ => trivial) h hr

/-- **No run fails** in a way that the outline excludes for each step. -/
theorem run_ne_error (hkeeps : Keeps act J Ok Rely) (hstable : Stable Ok Rely) {err : ε}
    (hsafe : ∀ i a g c l, J g c → Ok i g c l → act i a g l ≠ .error err)
    {s : Threads ι G L} (h : Sound J Ok s) (es : List (ι × α)) :
    run (Threads.step act) s es ≠ .error err := by
  induction es generalizing s with
  | nil =>
    intro hr
    cases hr
  | cons e es ih =>
    intro hr
    rw [run] at hr
    split at hr
    next s' hs => exact ih (h.step hkeeps hstable hs) hr
    next err' hs =>
      injection hr with herr
      obtain ⟨c, hJ, hOk⟩ := h
      exact hsafe _ _ _ c _ hJ (hOk e.1) (herr ▸ step_error hs)

/-! ## What a run looks like from outside -/

section Simulation

variable {β δ σ : Type}

/-- What the steps of a run emit. -/
def emits (act : ι → α → G → L → Except ε (G × L)) (out : G → L → α → Option β) :
    Threads ι G L → List (ι × α) → List β
  | _, [] => []
  | s, e :: es =>
    (out s.shared (s.locals e.1) e.2).toList ++
      match step act s e with
      | .ok s' => emits act out s' es
      | .error _ => []

/-- **What a run emits is a run** of the system `abs`, if each step is matched. `C` is what may be
assumed of the steps of the run. -/
theorem run_matches_of {out : G → L → α → Option β} {abs : σ → β → Except δ σ}
    {R : Threads ι G L → σ → Prop} {C : Threads ι G L → ι × α → Prop}
    (hmatch : ∀ s e s' x, C s e → R s x → step act s e = .ok s' →
      ∃ x', run abs x (out s.shared (s.locals e.1) e.2).toList = .ok x' ∧ R s' x')
    {es : List (ι × α)} {s s' : Threads ι G L} {x : σ} (hR : R s x)
    (hC : RunAll (Threads.step act) C s es) (hr : run (Threads.step act) s es = .ok s') :
    ∃ x', run abs x (emits act out s es) = .ok x' ∧ R s' x' := by
  induction es generalizing s x with
  | nil =>
    rw [run_nil] at hr
    injection hr with hr
    exact ⟨x, rfl, hr ▸ hR⟩
  | cons e es ih =>
    obtain ⟨s₁, hs, hrest⟩ := run_cons_ok hr
    obtain ⟨x₁, hx₁, hR₁⟩ := hmatch s e s₁ x hC.1 hR hs
    obtain ⟨x', hx', hR'⟩ := ih hR₁ (hC.2 s₁ hs) hrest
    refine ⟨x', ?_, hR'⟩
    rw [emits, hs, run_append _ hx₁]
    exact hx'

theorem runAll_cons {step : σ → α → Except ε σ} {C : σ → α → Prop} {s s' : σ} {a : α} {as : List α}
    (hC : C s a) (hs : step s a = .ok s') (hrest : RunAll step C s' as) : RunAll step C s (a :: as) := by
  refine ⟨hC, fun s'' hs'' => ?_⟩
  obtain rfl := Except.ok.inj (hs.symm.trans hs'')
  exact hrest

theorem runAll_of_forall {step : σ → α → Except ε σ} {C : σ → α → Prop} (h : ∀ s a, C s a)
    (as : List α) : ∀ s, RunAll step C s as := by
  induction as with
  | nil =>
    intro s
    exact trivial
  | cons a as ih =>
    intro s
    exact ⟨h s a, fun s' _ => ih s'⟩

/-- The same for all runs. -/
theorem run_matches {out : G → L → α → Option β} {abs : σ → β → Except δ σ}
    {R : Threads ι G L → σ → Prop}
    (hmatch : ∀ s e s' x, R s x → step act s e = .ok s' →
      ∃ x', run abs x (out s.shared (s.locals e.1) e.2).toList = .ok x' ∧ R s' x')
    {es : List (ι × α)} {s s' : Threads ι G L} {x : σ} (hR : R s x)
    (hr : run (Threads.step act) s es = .ok s') :
    ∃ x', run abs x (emits act out s es) = .ok x' ∧ R s' x' :=
  run_matches_of (C := fun _ _ => True) (fun s e s' x _ => hmatch s e s' x) hR
    (runAll_of_forall (fun _ _ => trivial) es s) hr

/-- The same, with a proof outline for the run. -/
theorem run_simulates (hkeeps : Keeps act J Ok Rely) (hstable : Stable Ok Rely)
    {out : G → L → α → Option β} {abs : σ → β → Except δ σ} {R : Threads ι G L → σ → Prop}
    (hmatch : ∀ s e s' x, Sound J Ok s → R s x → step act s e = .ok s' →
      ∃ x', run abs x (out s.shared (s.locals e.1) e.2).toList = .ok x' ∧ R s' x')
    {es : List (ι × α)} {s s' : Threads ι G L} {x : σ} (h : Sound J Ok s) (hR : R s x)
    (hr : run (Threads.step act) s es = .ok s') :
    ∃ x', run abs x (emits act out s es) = .ok x' ∧ R s' x' := by
  obtain ⟨x', hx', -, hR'⟩ := run_matches (R := fun s x => Sound J Ok s ∧ R s x)
    (fun s e s' x hs hstep => by
      obtain ⟨x', hx', hR'⟩ := hmatch s e s' x hs.1 hs.2 hstep
      exact ⟨x', hx', hs.1.step hkeeps hstable hstep, hR'⟩) ⟨h, hR⟩ hr
  exact ⟨x', hx', hR'⟩

end Simulation

end Threads

/-- A run that can be evaluated, without its last state being written down. -/
theorem exists_of_isOk {σ ε : Type} {x : Except ε σ} (h : x.isOk = true) : ∃ s, x = .ok s := by
  cases x with
  | ok s => exact ⟨s, rfl⟩
  | error e => cases h

end Aoo.Lib
