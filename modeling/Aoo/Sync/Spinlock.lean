import Aoo.Lib.Threads
import Mathlib.Algebra.Order.BigOperators.Group.Finset
import Mathlib.Data.Fintype.BigOperators

/-!
# The spin locks of `sync.hpp`

`shared_spinlock` keeps its whole state in one word: the highest bit for a writer, the other
bits for the number of readers. A reader first adds 1 and then looks whether a
writer is there; if so it takes the 1 back, and until then the word counts a reader that
is none. A writer needs the word to be 0.

The word is a sum over the threads (`word_eq`): 2^31 for one that writes and 1 for one that reads
or has still to take its 1 back. With fewer than 2^31 threads nothing carries into the highest bit,
and the sum allows no second writer; that no reader is there with a writer has to be
carried along (`shared_spinlock_excludes`).

`spinlock` is the simple case, a word that is exchanged. It is here with what it is used for in
this file: 64-bit values are kept behind it where the machine has no atomic access to them, and
the accesses to the two halves are then one access (`emulated_linearizes`).
-/

namespace Aoo.Sync

open Lib

/-- A thread cannot do this where it stands. -/
inductive Disabled
  | disabled
  deriving DecidableEq, Repr

/-! ## `shared_spinlock` -/

def UNLOCKED : BitVec 32 := 0

def LOCKED : BitVec 32 := 0x80000000

/-- Where a thread is. `again`: in `lock_shared`, which goes on until it succeeds, and not in
`try_lock_shared`. -/
inductive SharedPc
  | outside
  /-- `lock`: the first look, and the weak compare-exchange. -/
  | lockLoad
  | lockCas
  /-- It holds the lock. -/
  | writing
  | sharedLoad
  | sharedAdd (again : Bool)
  /-- A writer was there: the count is taken back. -/
  | sharedSub (again : Bool)
  /-- It holds the shared lock. -/
  | reading
  deriving DecidableEq, Repr

/-- What a thread does next, where it has a choice. -/
inductive SharedChoice
  | lock
  | tryLock
  | lockShared
  | tryLockShared
  /-- The next atomic operation of the call it is in, or `unlock` and `unlock_shared`. -/
  | go (spurious : Bool)
  deriving DecidableEq, Repr

/-- One atomic operation on `state_`. -/
def sharedStep (c : SharedChoice) (state : BitVec 32) :
    SharedPc → Except Disabled (BitVec 32 × SharedPc)
  | .outside =>
    match c with
    | .lock => .ok (state, .lockLoad)
    | .tryLock => if state = UNLOCKED then .ok (LOCKED, .writing) else .ok (state, .outside)
    | .lockShared => .ok (state, .sharedLoad)
    | .tryLockShared => .ok (state, .sharedAdd false)
    | .go _ => .error .disabled
  | .lockLoad => .ok (state, if state = UNLOCKED then .lockCas else .lockLoad)
  | .lockCas =>
    if state = UNLOCKED ∧ c = .go false then .ok (LOCKED, .writing) else .ok (state, .lockLoad)
  | .writing => .ok (state &&& ~~~LOCKED, .outside)
  | .sharedLoad => .ok (state, if state &&& LOCKED = 0 then .sharedAdd true else .sharedLoad)
  | .sharedAdd again => .ok (state + 1, if state &&& LOCKED = 0 then .reading else .sharedSub again)
  | .sharedSub again => .ok (state - 1, if again then .sharedLoad else .outside)
  | .reading => .ok (state - 1, .outside)

variable {ι : Type}

/-- The threads take their steps in the order of `schedule`. -/
def runShared [DecidableEq ι] (schedule : List (ι × SharedChoice)) :
    Except Disabled (Threads ι (BitVec 32) SharedPc) :=
  run (Threads.step fun _ c g l => sharedStep c g l) ⟨UNLOCKED, fun _ => .outside⟩ schedule

/-- What a thread contributes to the word. -/
def SharedPc.weight : SharedPc → ℤ
  | .writing => 2 ^ 31
  | .sharedSub _ | .reading => 1
  | _ => 0

@[simp] theorem SharedPc.weight_writing : SharedPc.writing.weight = 2 ^ 31 := rfl

theorem SharedPc.weight_nonneg (pc : SharedPc) : 0 ≤ pc.weight := by
  cases pc <;> simp [weight]

/-- Only writers count more than 1. -/
theorem SharedPc.weight_le_one {pc : SharedPc} (h : pc ≠ .writing) : pc.weight ≤ 1 := by
  cases pc with
  | writing => exact absurd rfl h
  | _ => simp [weight]

/-! ### The word -/

/-- The bit of the writer. -/
theorem and_locked_eq_zero_iff (w : BitVec 32) : w &&& LOCKED = 0 ↔ w.toNat < 2 ^ 31 := by
  have htwo : LOCKED = BitVec.twoPow 32 31 := rfl
  have hbit : w.getLsbD 31 = decide (2 ^ 31 ≤ w.toNat) := BitVec.msb_eq_decide w
  rw [htwo, BitVec.and_twoPow, hbit]
  by_cases h : 2 ^ 31 ≤ w.toNat
  · rw [if_pos (decide_eq_true h)]
    exact iff_of_false (by decide) (Nat.not_lt.mpr h)
  · rw [if_neg (by simpa using h)]
    exact iff_of_true rfl (Nat.lt_of_not_le h)

theorem toNat_and_not_locked (w : BitVec 32) : (w &&& ~~~LOCKED).toNat = w.toNat % 2 ^ 31 := by
  have hmask : (~~~LOCKED).toNat = 2 ^ 31 - 1 := rfl
  rw [BitVec.toNat_and, hmask, Nat.and_two_pow_sub_one_eq_mod]

theorem weight_le_sum [Fintype ι] (t : ι → SharedPc) (i : ι) : (t i).weight ≤ ∑ j, (t j).weight :=
  Finset.single_le_sum (f := fun j => (t j).weight) (fun j _ => (t j).weight_nonneg)
    (Finset.mem_univ i)

theorem weight_add_le_sum [DecidableEq ι] [Fintype ι] (t : ι → SharedPc) {i j : ι} (hij : i ≠ j) :
    (t i).weight + (t j).weight ≤ ∑ k, (t k).weight := by
  rw [← Finset.add_sum_erase _ _ (Finset.mem_univ i)]
  have hj : (t j).weight ≤ ∑ k ∈ Finset.univ.erase i, (t k).weight :=
    Finset.single_le_sum (f := fun k => (t k).weight) (fun k _ => (t k).weight_nonneg)
      (Finset.mem_erase.mpr ⟨hij.symm, Finset.mem_univ j⟩)
  omega

/-- The sum without a writer, and with one. -/
theorem sum_weight_lt [DecidableEq ι] [Fintype ι] (hι : Fintype.card ι < 2 ^ 31) {t : ι → SharedPc}
    (hone : ∀ i j, t i = .writing → t j = .writing → i = j) :
    ∑ k, (t k).weight < 2 ^ 32 ∧ ((∀ i, t i ≠ .writing) → ∑ k, (t k).weight < 2 ^ 31) := by
  have hcard : (Fintype.card ι : ℤ) < 2 ^ 31 := by exact_mod_cast hι
  have hless : (∀ i, t i ≠ .writing) → ∑ k, (t k).weight < 2 ^ 31 := by
    intro hnone
    refine Int.lt_of_le_of_lt ?_ hcard
    calc ∑ k, (t k).weight ≤ ∑ _k : ι, (1 : ℤ) :=
          Finset.sum_le_sum fun k _ => SharedPc.weight_le_one (hnone k)
      _ = Fintype.card ι := by simp
  refine ⟨?_, hless⟩
  by_cases hnone : ∀ i, t i ≠ .writing
  · have := hless hnone
    omega
  · obtain ⟨i, hi⟩ := not_forall.mp hnone
    have hi := not_not.mp hi
    -- all others count at most 1
    have hrest : ∑ k ∈ Finset.univ.erase i, (t k).weight ≤ Fintype.card ι := by
      calc ∑ k ∈ Finset.univ.erase i, (t k).weight
          ≤ ∑ _k ∈ Finset.univ.erase i, (1 : ℤ) := by
            refine Finset.sum_le_sum fun k hk => SharedPc.weight_le_one fun hc => ?_
            exact Finset.ne_of_mem_erase hk (hone k i hc hi)
        _ = ((Finset.univ.erase i).card : ℤ) := by simp
        _ ≤ Fintype.card ι := by exact_mod_cast Finset.card_le_univ _
    rw [← Finset.add_sum_erase _ _ (Finset.mem_univ i), hi, SharedPc.weight_writing]
    omega

/-! ### The invariant -/

/-- The word is the sum over the threads, and nobody reads while somebody writes. -/
structure SharedInv [Fintype ι] (s : Threads ι (BitVec 32) SharedPc) : Prop where
  word_eq : (s.shared.toNat : ℤ) = ∑ i, (s.locals i).weight
  excludes : ∀ i j, s.locals i = .writing → s.locals j ≠ .reading

namespace SharedInv

variable [DecidableEq ι] [Fintype ι] {s : Threads ι (BitVec 32) SharedPc}

/-- There is one writer at most, since two would not fit in the word. -/
theorem one_writer (h : SharedInv s) {i j : ι} (hi : s.locals i = .writing)
    (hj : s.locals j = .writing) : i = j := by
  by_contra hij
  have hsum := weight_add_le_sum s.locals hij
  rw [hi, hj, ← h.word_eq, SharedPc.weight_writing] at hsum
  have hlt := s.shared.isLt
  omega

theorem no_writer_iff (hι : Fintype.card ι < 2 ^ 31) (h : SharedInv s) :
    s.shared &&& LOCKED = 0 ↔ ∀ i, s.locals i ≠ .writing := by
  rw [and_locked_eq_zero_iff]
  refine ⟨fun hlt i hi => ?_, fun hnone => ?_⟩
  · have hle := weight_le_sum s.locals i
    rw [hi, ← h.word_eq, SharedPc.weight_writing] at hle
    omega
  · have hlt := (sum_weight_lt hι fun i j hi hj => h.one_writer hi hj).2 hnone
    rw [← h.word_eq] at hlt
    omega

omit [DecidableEq ι] in
/-- With the word at 0 nobody is inside or on the way. -/
theorem weight_eq_zero (h : SharedInv s) (hzero : s.shared = UNLOCKED) (i : ι) :
    (s.locals i).weight = 0 := by
  have hle := weight_le_sum s.locals i
  rw [← h.word_eq, hzero] at hle
  exact Int.le_antisymm hle (SharedPc.weight_nonneg _)

/-- What a step of one thread has to show. -/
theorem update (h : SharedInv s) {i : ι} {state : BitVec 32} {pc : SharedPc}
    (hword : (state.toNat : ℤ) = s.shared.toNat - (s.locals i).weight + pc.weight)
    (hwriting : pc = .writing → ∀ j, j ≠ i → s.locals j ≠ .reading)
    (hreading : pc = .reading → ∀ j, j ≠ i → s.locals j ≠ .writing) :
    SharedInv ⟨state, Function.update s.locals i pc⟩ where
  word_eq := by
    show (state.toNat : ℤ) = ∑ j, (Function.update s.locals i pc j).weight
    rw [Threads.sum_update, ← h.word_eq]
    exact hword
  excludes j k hj hk := by
    have hj' : Function.update s.locals i pc j = .writing := hj
    have hk' : Function.update s.locals i pc k = .reading := hk
    rcases eq_or_ne j i with rfl | hji
    · rw [Function.update_self] at hj'
      rcases eq_or_ne k j with rfl | hki
      · rw [Function.update_self, hj'] at hk'
        cases hk'
      · rw [Function.update_of_ne hki] at hk'
        exact hwriting hj' k hki hk'
    · rw [Function.update_of_ne hji] at hj'
      rcases eq_or_ne k i with rfl | hki
      · rw [Function.update_self] at hk'
        exact hreading hk' j hji hj'
      · rw [Function.update_of_ne hki] at hk'
        exact h.excludes j k hj' hk'

/-- A step that neither enters nor leaves. -/
theorem stay (h : SharedInv s) {i : ι} {pc : SharedPc} (hold : (s.locals i).weight = 0)
    (hnew : pc.weight = 0) : SharedInv ⟨s.shared, Function.update s.locals i pc⟩ := by
  refine h.update ?_ ?_ ?_
  · rw [hold, hnew]
    omega
  all_goals
    rintro rfl
    cases hnew

/-- The word is 0 and becomes `LOCKED`. -/
theorem enter (h : SharedInv s) {i : ι} (hzero : s.shared = UNLOCKED) :
    SharedInv ⟨LOCKED, Function.update s.locals i .writing⟩ := by
  refine h.update ?_ (fun _ j _ hj => ?_) fun hc => SharedPc.noConfusion hc
  · rw [h.weight_eq_zero hzero i, hzero]
    rfl
  · have hweight := h.weight_eq_zero hzero j
    rw [hj] at hweight
    cases hweight

/-- There is room for one more reader. -/
theorem toNat_add_one (hι : Fintype.card ι < 2 ^ 31) (h : SharedInv s) {i : ι}
    (hold : (s.locals i).weight = 0) : (s.shared + 1).toNat = s.shared.toNat + 1 := by
  have hsum := sum_weight_lt hι (t := Function.update s.locals i (.sharedSub true))
    fun j k hj hk => ?_
  · have hlt := hsum.1
    rw [Threads.sum_update, ← h.word_eq, hold, show (SharedPc.sharedSub true).weight = 1 from rfl]
      at hlt
    have hone : (1 : BitVec 32).toNat = 1 := rfl
    exact BitVec.toNat_add_of_lt (by rw [hone]; omega)
  · have hne : ∀ {l}, Function.update s.locals i (.sharedSub true) l = .writing → l ≠ i := by
      rintro l hl rfl
      rw [Function.update_self] at hl
      cases hl
    have hj' := hne hj
    have hk' := hne hk
    rw [Function.update_of_ne hj'] at hj
    rw [Function.update_of_ne hk'] at hk
    exact h.one_writer hj hk

/-- A thread that counts 1 takes it back. -/
theorem takeBack (h : SharedInv s) {i : ι} {pc : SharedPc} (hold : (s.locals i).weight = 1)
    (hnew : pc.weight = 0) : SharedInv ⟨s.shared - 1, Function.update s.locals i pc⟩ := by
  have hle := weight_le_sum s.locals i
  rw [← h.word_eq, hold] at hle
  have hsub : (s.shared - 1).toNat = s.shared.toNat - 1 := by
    refine BitVec.toNat_sub_of_le (BitVec.le_def.mpr ?_)
    show 1 ≤ s.shared.toNat
    omega
  refine h.update ?_ ?_ ?_
  · rw [hsub, hold, hnew]
    omega
  all_goals
    rintro rfl
    cases hnew

/-- **One atomic operation keeps it.** -/
theorem step (hι : Fintype.card ι < 2 ^ 31) (h : SharedInv s) {e : ι × SharedChoice}
    {s' : Threads ι (BitVec 32) SharedPc}
    (hs : Threads.step (fun _ c g l => sharedStep c g l) s e = .ok s') : SharedInv s' := by
  obtain ⟨g, pc, hact, rfl⟩ := Threads.step_ok hs
  obtain ⟨i, c⟩ := e
  have hlt := s.shared.isLt
  have hle := weight_le_sum s.locals i
  rw [← h.word_eq] at hle
  cases hpc : s.locals i with
  | outside =>
    have hold : (s.locals i).weight = 0 := by rw [hpc]; rfl
    simp only [sharedStep, hpc] at hact
    cases c with
    | lock =>
      obtain ⟨rfl, rfl⟩ := Prod.mk.inj (Except.ok.inj hact)
      exact h.stay hold rfl
    | tryLock =>
      dsimp only at hact
      split at hact
      next hzero =>
        obtain ⟨rfl, rfl⟩ := Prod.mk.inj (Except.ok.inj hact)
        exact h.enter hzero
      next =>
        obtain ⟨rfl, rfl⟩ := Prod.mk.inj (Except.ok.inj hact)
        exact h.stay hold rfl
    | lockShared =>
      obtain ⟨rfl, rfl⟩ := Prod.mk.inj (Except.ok.inj hact)
      exact h.stay hold rfl
    | tryLockShared =>
      obtain ⟨rfl, rfl⟩ := Prod.mk.inj (Except.ok.inj hact)
      exact h.stay hold rfl
    | go spurious => cases hact
  | lockLoad =>
    have hold : (s.locals i).weight = 0 := by rw [hpc]; rfl
    simp only [sharedStep, hpc] at hact
    obtain ⟨rfl, rfl⟩ := Prod.mk.inj (Except.ok.inj hact)
    split
    · exact h.stay hold rfl
    · exact h.stay hold rfl
  | lockCas =>
    have hold : (s.locals i).weight = 0 := by rw [hpc]; rfl
    simp only [sharedStep, hpc] at hact
    split at hact
    next hcas =>
      obtain ⟨rfl, rfl⟩ := Prod.mk.inj (Except.ok.inj hact)
      exact h.enter hcas.1
    next =>
      obtain ⟨rfl, rfl⟩ := Prod.mk.inj (Except.ok.inj hact)
      exact h.stay hold rfl
  | writing =>
    simp only [sharedStep, hpc] at hact
    obtain ⟨rfl, rfl⟩ := Prod.mk.inj (Except.ok.inj hact)
    refine h.update ?_ (fun hc => SharedPc.noConfusion hc) fun hc => SharedPc.noConfusion hc
    -- the highest bit is taken away
    rw [hpc, SharedPc.weight_writing] at hle
    rw [toNat_and_not_locked, hpc, SharedPc.weight_writing, show SharedPc.outside.weight = 0 from rfl]
    omega
  | sharedLoad =>
    have hold : (s.locals i).weight = 0 := by rw [hpc]; rfl
    simp only [sharedStep, hpc] at hact
    obtain ⟨rfl, rfl⟩ := Prod.mk.inj (Except.ok.inj hact)
    split
    · exact h.stay hold rfl
    · exact h.stay hold rfl
  | sharedAdd again =>
    have hold : (s.locals i).weight = 0 := by rw [hpc]; rfl
    have hadd := h.toNat_add_one hι hold
    simp only [sharedStep, hpc] at hact
    obtain ⟨rfl, rfl⟩ := Prod.mk.inj (Except.ok.inj hact)
    split
    next hfree =>
      -- the old word shows that nobody was writing when the 1 was added
      refine h.update ?_ (fun hc => SharedPc.noConfusion hc) fun _ j _ => ?_
      · rw [hadd, hold, show SharedPc.reading.weight = 1 from rfl]
        omega
      · exact (h.no_writer_iff hι).mp hfree j
    next =>
      refine h.update ?_ (fun hc => SharedPc.noConfusion hc) fun hc => SharedPc.noConfusion hc
      rw [hadd, hold, show (SharedPc.sharedSub again).weight = 1 from rfl]
      omega
  | sharedSub again =>
    have hold : (s.locals i).weight = 1 := by rw [hpc]; rfl
    simp only [sharedStep, hpc] at hact
    obtain ⟨rfl, rfl⟩ := Prod.mk.inj (Except.ok.inj hact)
    cases again with
    | true => exact h.takeBack hold rfl
    | false => exact h.takeBack hold rfl
  | reading =>
    have hold : (s.locals i).weight = 1 := by rw [hpc]; rfl
    simp only [sharedStep, hpc] at hact
    obtain ⟨rfl, rfl⟩ := Prod.mk.inj (Except.ok.inj hact)
    exact h.takeBack hold rfl

end SharedInv

/-! ### The results -/

section Shared

variable [DecidableEq ι] [Fintype ι] {schedule : List (ι × SharedChoice)}
  {s : Threads ι (BitVec 32) SharedPc}

omit [DecidableEq ι] in
theorem sharedInv_start : SharedInv (⟨UNLOCKED, fun _ => .outside⟩ : Threads ι _ _) where
  word_eq := (Finset.sum_const_zero).symm
  excludes _ _ hi := SharedPc.noConfusion hi

theorem sharedInv_run (hι : Fintype.card ι < 2 ^ 31) (hr : runShared schedule = .ok s) :
    SharedInv s :=
  run_invariant (P := fun _ => True) (fun _ _ _ _ h hs => h.step hι hs) (fun _ _ => trivial)
    sharedInv_start hr

/-- **Readers or one writer.** While a thread holds the lock no other one holds it, shared or
not, in every state that fewer than 2^31 threads can reach in any order. When all of them
are outside the word is 0 again. -/
theorem shared_spinlock_excludes (hι : Fintype.card ι < 2 ^ 31) (hr : runShared schedule = .ok s) :
    (∀ i j, i ≠ j → s.locals i = .writing → s.locals j ≠ .writing ∧ s.locals j ≠ .reading) ∧
      ((∀ i, s.locals i = .outside) → s.shared = UNLOCKED) := by
  have h := sharedInv_run hι hr
  refine ⟨fun i j hij hi => ⟨fun hj => hij (h.one_writer hi hj), h.excludes i j hi⟩, fun hout => ?_⟩
  have hzero : ∑ i, (s.locals i).weight = 0 := Finset.sum_eq_zero fun i _ => by rw [hout i]; rfl
  rw [← h.word_eq] at hzero
  exact BitVec.eq_of_toNat_eq (Int.ofNat.inj hzero)

/-- A writer, a reader that comes while it writes, and one that comes afterwards. -/
def writerThenReader : List (Fin 3 × SharedChoice) :=
  [(0, .lock), (0, .go false), (0, .go false), (1, .tryLockShared), (1, .go false),
    (0, .go false), (2, .lockShared), (2, .go false), (2, .go false), (1, .go false)]

theorem shared_spinlock_excludes_writerThenReader :
    ∃ s, runShared writerThenReader = .ok s ∧
      (∀ i j, i ≠ j → s.locals i = .writing → s.locals j ≠ .writing ∧ s.locals j ≠ .reading) ∧
        ((∀ i, s.locals i = .outside) → s.shared = UNLOCKED) := by
  obtain ⟨s, hs⟩ := exists_of_isOk (x := runShared writerThenReader) rfl
  exact ⟨s, hs, shared_spinlock_excludes (by decide) hs⟩

end Shared

/-! ## `spinlock` and `relaxed_atomic_emulated` -/

/-- An operation of `relaxed_atomic_emulated<T>`; a value has two halves of type `β`. -/
inductive AtomicOp (β : Type)
  | load
  | store (v : β × β)
  | exchange (v : β × β)
  deriving DecidableEq, Repr

/-- The value that an operation leaves behind. -/
def AtomicOp.after {β : Type} (old : β × β) : AtomicOp β → β × β
  | .load => old
  | .store v | .exchange v => v

/-- Where a thread is. `old`: the value it has read, if its operation reads one. -/
inductive SpinPc (β : Type)
  | outside
  /-- `lock`: it waits until the lock seems to be free, then exchanges the word. -/
  | spin (op : AtomicOp β)
  | exchange (op : AtomicOp β)
  /-- It holds the lock and reads the value, one half after the other. -/
  | readLow (op : AtomicOp β)
  | readHigh (op : AtomicOp β) (low : β)
  /-- It writes the new value, one half after the other. -/
  | writeLow (op : AtomicOp β) (old : Option (β × β))
  | writeHigh (op : AtomicOp β) (old : Option (β × β))
  | unlock (op : AtomicOp β) (old : Option (β × β))
  deriving DecidableEq, Repr

/-- It holds the lock. -/
def SpinPc.inside {β : Type} : SpinPc β → Bool
  | .outside | .spin _ | .exchange _ => false
  | _ => true

/-- `g_atomic_spinlock` and the value behind it. -/
structure Emulated (β : Type) where
  locked : Bool := false
  value : β × β
  deriving DecidableEq, Repr

variable {β : Type}

/-- The first access of an operation, and the one behind its reads. -/
def AtomicOp.first (op : AtomicOp β) : SpinPc β :=
  match op with
  | .store _ => .writeLow op none
  | _ => .readLow op

def AtomicOp.second (op : AtomicOp β) (old : β × β) : SpinPc β :=
  match op with
  | .load => .unlock op (some old)
  | _ => .writeLow op (some old)

/-- One access to memory. `op` is what a thread that is outside does next. -/
def spinStep (op : AtomicOp β) (g : Emulated β) : SpinPc β → Emulated β × SpinPc β
  | .outside => (g, .spin op)
  | .spin op => (g, if g.locked then .spin op else .exchange op)
  | .exchange op => ({ g with locked := true }, if g.locked then .spin op else op.first)
  | .readLow op => (g, .readHigh op g.value.1)
  | .readHigh op low => (g, op.second (low, g.value.2))
  | .writeLow op old => ({ g with value := ((op.after g.value).1, g.value.2) }, .writeHigh op old)
  | .writeHigh op old => ({ g with value := (g.value.1, (op.after g.value).2) }, .unlock op old)
  | .unlock _ _ => ({ g with locked := false }, .outside)

def spinAct (_ : ι) (op : AtomicOp β) (g : Emulated β) (l : SpinPc β) :
    Except Disabled (Emulated β × SpinPc β) := .ok (spinStep op g l)

/-- What a thread has done when it gives the lock back. -/
def completes (_ : Emulated β) (l : SpinPc β) (_ : AtomicOp β) :
    Option (AtomicOp β × Option (β × β)) :=
  match l with
  | .unlock op old => some (op, old)
  | _ => none

/-- The value of the variable when the access of a thread is done. -/
def SpinPc.result (x : β × β) : SpinPc β → β × β
  | .unlock op _ => op.after x
  | _ => x

/-- An atomic variable: what an operation reads is the value that is there. -/
def atomicStep [DecidableEq β] (value : β × β) (e : AtomicOp β × Option (β × β)) :
    Except Unit (β × β) :=
  if e.2.all (· = value) then .ok (e.1.after value) else .error ()

/-! ### The outline -/

/-- The ghost state is the thread that holds the lock. While nobody does, the value is that of
the atomic variable, `x`. -/
def SpinShared (x : β × β) (g : Emulated β) (holder : Option ι) : Prop :=
  (g.locked = true ↔ holder ≠ none) ∧ (holder = none → g.value = x)

/-- What a thread knows inside. -/
def SpinPcOk (x : β × β) (g : Emulated β) : SpinPc β → Prop
  | .readLow _ => g.value = x
  | .readHigh _ low => g.value = x ∧ low = x.1
  | .writeLow op old => g.value = x ∧ op ≠ .load ∧ ∀ v, old = some v → v = x
  | .writeHigh op old => g.value = ((op.after x).1, x.2) ∧ op ≠ .load ∧ ∀ v, old = some v → v = x
  | .unlock op old => g.value = op.after x ∧ ∀ v, old = some v → v = x
  | _ => True

structure SpinOk (x : β × β) (i : ι) (g : Emulated β) (holder : Option ι) (l : SpinPc β) :
    Prop where
  inside : holder = some i ↔ l.inside = true
  stage : SpinPcOk x g l

theorem store_ne_load {v : β × β} : AtomicOp.store v ≠ .load := by
  intro h
  cases h

theorem exchange_ne_load {v : β × β} : AtomicOp.exchange v ≠ .load := by
  intro h
  cases h

section Outline

variable {x x' : β × β} {g g' : Emulated β} {holder holder' : Option ι} {i j : ι} {l : SpinPc β}
  {op : AtomicOp β}

theorem spinPcOk_of_outside (h : l.inside = false) : SpinPcOk x g l := by
  cases l with
  | outside => exact trivial
  | spin op => exact trivial
  | exchange op => exact trivial
  | _ => cases h

theorem SpinPcOk.congr (h : SpinPcOk x g l) (hvalue : g'.value = g.value) : SpinPcOk x g' l := by
  cases l with
  | readLow op => exact hvalue.trans h
  | readHigh op low => exact ⟨hvalue.trans h.1, h.2⟩
  | writeLow op old => exact ⟨hvalue.trans h.1, h.2⟩
  | writeHigh op old => exact ⟨hvalue.trans h.1, h.2⟩
  | unlock op old => exact ⟨hvalue.trans h.1, h.2⟩
  | _ => exact trivial

/-- What a thread knows while another one takes a step. -/
theorem SpinOk.other (h : SpinOk x j g holder l) (hholder : holder' = some j ↔ holder = some j)
    (hsame : holder = some j → g'.value = g.value ∧ x' = x) : SpinOk x' j g' holder' l := by
  refine ⟨hholder.trans h.inside, ?_⟩
  cases hin : l.inside with
  | false => exact spinPcOk_of_outside hin
  | true =>
    obtain ⟨hvalue, rfl⟩ := hsame (h.inside.mpr hin)
    exact h.stage.congr hvalue

/-- What one access does: who holds the lock afterwards, and the value of the variable. -/
def SpinKept (x : β × β) (i : ι) (g : Emulated β) (holder : Option ι) (x' : β × β)
    (r : Emulated β × SpinPc β) : Prop :=
  ∃ holder', SpinShared x' r.1 holder' ∧ SpinOk x' i r.1 holder' r.2 ∧
    ∀ j, j ≠ i → (holder' = some j ↔ holder = some j) ∧
      (holder = some j → r.1.value = g.value ∧ x' = x)

/-- An access that only the thread itself notices. -/
theorem spinKept_local (hS : SpinShared x g holder) (hOk : SpinOk x i g holder l)
    {l' : SpinPc β} (hin : l'.inside = l.inside) (hstage : SpinPcOk x g l') :
    SpinKept x i g holder x (g, l') :=
  ⟨holder, hS, ⟨hOk.inside.trans (Bool.eq_iff_iff.mp hin.symm), hstage⟩,
    fun _ _ => ⟨Iff.rfl, fun _ => ⟨rfl, rfl⟩⟩⟩

/-- The thread that holds the lock writes. -/
theorem spinKept_write (hS : SpinShared x g holder) (hOk : SpinOk x i g holder l)
    (hin : l.inside = true) {v : β × β} {l' : SpinPc β} (hin' : l'.inside = true)
    (hstage : SpinPcOk x { g with value := v } l') :
    SpinKept x i g holder x ({ g with value := v }, l') := by
  have hi : holder = some i := hOk.inside.mpr hin
  refine ⟨holder, ⟨hS.1, fun hnone => ?_⟩, ⟨iff_of_true hi hin', hstage⟩, fun j hj => ⟨Iff.rfl,
    fun hc => ?_⟩⟩
  · exact absurd (hi.symm.trans hnone) (Option.some_ne_none i)
  · exact absurd (Option.some.inj (hi.symm.trans hc)).symm hj

theorem spinKept_step (op : AtomicOp β) (hS : SpinShared x g holder) (hOk : SpinOk x i g holder l) :
    SpinKept x i g holder (l.result x) (spinStep op g l) := by
  cases l with
  | outside => exact spinKept_local hS hOk rfl trivial
  | spin op =>
    show SpinKept x i g holder x (g, if g.locked then .spin op else .exchange op)
    split
    · exact spinKept_local hS hOk rfl trivial
    · exact spinKept_local hS hOk rfl trivial
  | exchange op =>
    show SpinKept x i g holder x ({ g with locked := true }, if g.locked then .spin op else op.first)
    cases hlocked : g.locked with
    | true =>
      -- it was locked, and still is
      have hsame : ({ g with locked := true } : Emulated β) = g := by rw [← hlocked]
      rw [if_pos rfl, hsame]
      exact spinKept_local hS hOk rfl trivial
    | false =>
      have hfree : holder = none := by
        by_contra hc
        exact Bool.false_ne_true (hlocked.symm.trans (hS.1.mpr hc))
      have hvalue := hS.2 hfree
      rw [if_neg Bool.false_ne_true]
      -- the thread becomes the holder; no other one was
      refine ⟨some i, ⟨iff_of_true rfl (Option.some_ne_none i), fun hc => ?_⟩, ⟨?_, ?_⟩,
        fun j hj => ⟨?_, fun hc => ?_⟩⟩
      · exact absurd hc (Option.some_ne_none i)
      · refine iff_of_true rfl ?_
        cases op <;> rfl
      · cases op with
        | load => exact hvalue
        | store v => exact ⟨hvalue, store_ne_load, fun v hv => absurd hv (Option.some_ne_none v).symm⟩
        | exchange v => exact hvalue
      · rw [hfree]
        exact iff_of_false (fun hc => hj (Option.some.inj hc).symm) (Option.some_ne_none j).symm
      · exact absurd (hfree.symm.trans hc) (Option.some_ne_none j).symm
  | readLow op =>
    have hvalue : g.value = x := hOk.stage
    exact spinKept_local hS hOk rfl ⟨hvalue, by rw [hvalue]⟩
  | readHigh op low =>
    obtain ⟨hvalue, hlow⟩ : g.value = x ∧ low = x.1 := hOk.stage
    have hold : (low, g.value.2) = x := by rw [hvalue, hlow]
    show SpinKept x i g holder x (g, op.second (low, g.value.2))
    rw [hold]
    cases op with
    | load => exact spinKept_local hS hOk rfl ⟨hvalue, fun v hv => (Option.some.inj hv).symm⟩
    | store v =>
      exact spinKept_local hS hOk rfl
        ⟨hvalue, store_ne_load, fun v hv => (Option.some.inj hv).symm⟩
    | exchange v =>
      exact spinKept_local hS hOk rfl
        ⟨hvalue, exchange_ne_load, fun v hv => (Option.some.inj hv).symm⟩
  | writeLow op old =>
    obtain ⟨hvalue, hop, hold⟩ : g.value = x ∧ op ≠ .load ∧ ∀ v, old = some v → v = x := hOk.stage
    refine spinKept_write hS hOk rfl rfl ⟨?_, hop, hold⟩
    rw [hvalue]
  | writeHigh op old =>
    obtain ⟨hvalue, hop, hold⟩ : g.value = ((op.after x).1, x.2) ∧ op ≠ .load ∧
      ∀ v, old = some v → v = x := hOk.stage
    refine spinKept_write hS hOk rfl rfl ⟨?_, hold⟩
    cases op with
    | load => exact absurd rfl hop
    | store v => rw [hvalue]; rfl
    | exchange v => rw [hvalue]; rfl
  | unlock op old =>
    obtain ⟨hvalue, -⟩ : g.value = op.after x ∧ ∀ v, old = some v → v = x := hOk.stage
    have hi : holder = some i := hOk.inside.mpr rfl
    -- this is where the operation takes effect on the atomic variable
    refine ⟨none, ⟨iff_of_false Bool.false_ne_true fun hc => hc rfl, fun _ => hvalue⟩,
      ⟨iff_of_false (Option.some_ne_none i).symm Bool.false_ne_true, trivial⟩,
      fun j hj => ⟨?_, fun hc => ?_⟩⟩
    · rw [hi]
      exact iff_of_false (Option.some_ne_none j).symm fun hc => hj (Option.some.inj hc).symm
    · exact absurd (Option.some.inj (hi.symm.trans hc)).symm hj

end Outline

/-! ### The results -/

section Emulated

variable [DecidableEq ι] [DecidableEq β] {v : β × β} {schedule : List (ι × AtomicOp β)}
  {s : Threads ι (Emulated β) (SpinPc β)}

/-- The threads take their steps in the order of `schedule`. -/
def runEmulated (v : β × β) (schedule : List (ι × AtomicOp β)) :
    Except Disabled (Threads ι (Emulated β) (SpinPc β)) :=
  run (Threads.step spinAct) ⟨{ value := v }, fun _ => .outside⟩ schedule

omit [DecidableEq ι] in
/-- What a thread reports when it gives the lock back is what an atomic variable does. -/
theorem run_completes {x : β × β} {i : ι} {g : Emulated β} {holder : Option ι} {l : SpinPc β}
    {op : AtomicOp β} (h : SpinOk x i g holder l) :
    run atomicStep x (completes g l op).toList = .ok (l.result x) := by
  cases l with
  | unlock op old =>
    have hall : old.all (· = x) = true := by
      cases old with
      | none => rfl
      | some v => exact decide_eq_true (h.stage.2 v rfl)
    show run atomicStep x [(op, old)] = .ok (op.after x)
    rw [run, atomicStep, if_pos hall]
    rfl
  | _ => rfl

/-- **Operations on the two halves are atomic.** In every run, for any number of threads, the
completed operations in the order of their `unlock` are a history of an atomic variable: each one
has read the value that was there. At most one thread is inside at a time, and while nobody
is, the value is that of the variable. -/
theorem emulated_linearizes (hr : runEmulated v schedule = .ok s) :
    ∃ x, run atomicStep v (Threads.emits spinAct completes
        (⟨{ value := v }, fun _ => .outside⟩ : Threads ι (Emulated β) (SpinPc β)) schedule) = .ok x ∧
      (∀ i j, (s.locals i).inside = true → (s.locals j).inside = true → i = j) ∧
      ((∀ i, (s.locals i).inside = false) → s.shared.locked = false ∧ s.shared.value = x) := by
  have hstart : Threads.Sound (SpinShared v) (SpinOk v)
      (⟨{ value := v }, fun _ => .outside⟩ : Threads ι (Emulated β) (SpinPc β)) :=
    ⟨none, ⟨iff_of_false Bool.false_ne_true fun hc => hc rfl, fun _ => rfl⟩, fun i =>
      ⟨iff_of_false (Option.some_ne_none i).symm Bool.false_ne_true, trivial⟩⟩
  have hrun : ∃ x, run atomicStep v (Threads.emits spinAct completes
      (⟨{ value := v }, fun _ => .outside⟩ : Threads ι (Emulated β) (SpinPc β)) schedule) = .ok x ∧
      Threads.Sound (SpinShared x) (SpinOk x) s := by
    refine Threads.run_matches (R := fun s x => Threads.Sound (SpinShared x) (SpinOk x) s)
      (fun s e s' x hs hstep => ?_) hstart hr
    obtain ⟨holder, hS, hOk⟩ := hs
    obtain ⟨g, l, hact, rfl⟩ := Threads.step_ok hstep
    obtain ⟨rfl, rfl⟩ := Prod.mk.inj (Except.ok.inj hact)
    obtain ⟨holder', hS', hOk', hothers⟩ := spinKept_step e.2 hS (hOk e.1)
    refine ⟨(s.locals e.1).result x, ?_, holder', hS', ?_⟩
    · exact run_completes (hOk e.1)
    · rw [Function.forall_update_iff s.locals (p := fun j l => SpinOk _ j _ holder' l)]
      exact ⟨hOk', fun j hj => (hOk j).other (hothers j hj).1 (hothers j hj).2⟩
  obtain ⟨x, hx, holder, hS, hOk⟩ := hrun
  refine ⟨x, hx, fun i j hi hj => ?_, fun hout => ?_⟩
  · exact Option.some.inj (((hOk i).inside.mpr hi).symm.trans ((hOk j).inside.mpr hj))
  · have hnone : holder = none := by
      cases hh : holder with
      | none => rfl
      | some i =>
        have := (hOk i).inside.mp hh
        rw [hout i] at this
        cases this
    refine ⟨?_, hS.2 hnone⟩
    exact Bool.eq_false_iff.mpr fun hc => hS.1.mp hc hnone

/-- Two threads exchange the value at the same time. -/
def twoExchanges : List (Bool × AtomicOp Nat) :=
  [(false, .exchange (1, 2)), (true, .exchange (3, 4)), (false, .load), (true, .load),
    (false, .load), (true, .load), (false, .load), (true, .load), (false, .load), (false, .load),
    (false, .load), (false, .load), (true, .load)]

theorem emulated_linearizes_twoExchanges :
    ∃ s, runEmulated (0, 0) twoExchanges = .ok s ∧
      ∃ x, run atomicStep (0, 0) (Threads.emits spinAct completes
          (⟨{ value := (0, 0) }, fun _ => .outside⟩ : Threads Bool (Emulated Nat) (SpinPc Nat))
          twoExchanges) = .ok x ∧
        (∀ i j, (s.locals i).inside = true → (s.locals j).inside = true → i = j) ∧
        ((∀ i, (s.locals i).inside = false) → s.shared.locked = false ∧ s.shared.value = x) := by
  obtain ⟨s, hs⟩ := exists_of_isOk (x := runEmulated (0, 0) twoExchanges) rfl
  exact ⟨s, hs, emulated_linearizes hs⟩

end Emulated

end Aoo.Sync
