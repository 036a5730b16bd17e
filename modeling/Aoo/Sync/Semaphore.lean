import Aoo.Sync.Spinlock
import Mathlib.Algebra.Order.BigOperators.Group.Finset
import Mathlib.Data.Fintype.BigOperators

/-!
# `semaphore` and `event`

Both are a counter in front of a semaphore of the operating system. A thread that waits first
subtracts 1; only if nothing was there does it go on to wait for a token of the native semaphore. The
other side adds 1, and posts a token only if somebody waits. The two differ in what they
add: `event` stops at 1, so that it is set or not however often it was set.

`wait_for` is where this is delicate. When the native wait has timed out, the counter still counts the
thread as waiting, and in the meantime a token may have been posted for it. So it takes either the
token, or its 1 back; it must never leave both.

The result is a simulation (`semaphore_refines`, `event_refines`): every interleaving is a run of a
`Gate`, on which tokens are counted and waiting threads are released one for each signal. The native
semaphore, with the tokens that are just being posted, holds exactly one token for each thread that has
been released and has not yet gone on: no signal is lost and none wakes two threads.

`try_wait` never returns `false`. A thread that finds nothing stays in its loop, in which the
counter is not read again (`try_wait_spins`).

The native semaphore is a number that cannot become negative. Its waiting with a timeout
may end without a token at any moment.
-/

namespace Aoo.Sync

open Lib

/-- `count_` and the value of the native semaphore. -/
structure Waitable where
  count : BitVec 32 := 0
  native : Nat := 0

/-- The two classes. -/
inductive Kind
  | semaphore
  | event
  deriving DecidableEq, Repr

/-- Where a thread is. -/
inductive WaitPc
  | outside
  /-- `semaphore::post` -/
  | postAdd
  /-- `event::set`: the first look, and the weak compare-exchange. -/
  | setLoad
  | setCas (old : BitVec 32)
  | nativePost
  /-- `wait` -/
  | waitSub
  | nativeWait
  /-- `try_wait`: the first look, and the loop. -/
  | tryLoad
  | tryLoop (count : BitVec 32)
  /-- `wait_for`, and its loop after the timeout. -/
  | waitForSub
  | nativeWaitFor
  | reload
  | nativeTryWait
  | takeBack (old : BitVec 32)
  deriving DecidableEq, Repr

/-- What a thread does next, where it has a choice. -/
inductive WaitChoice
  /-- `post` or `set`. -/
  | signal
  | wait
  | tryWait
  | waitFor
  /-- The next operation of the call it is in. `fails`: a weak compare-exchange fails for no reason, or
  the time is over. -/
  | go (fails : Bool)
  deriving DecidableEq, Repr

/-- The first step of `post` and of `set`. -/
def Kind.signal : Kind → WaitPc
  | .semaphore => .postAdd
  | .event => .setLoad

/-- `newcount` in `event::set`. -/
def newcount (oldcount : BitVec 32) : BitVec 32 :=
  if 0 ≤ oldcount.toInt then 1 else oldcount + 1

/-- One atomic operation. A native wait without a token cannot take its step. -/
def waitStep (kind : Kind) (c : WaitChoice) (g : Waitable) :
    WaitPc → Except Disabled (Waitable × WaitPc)
  | .outside =>
    match c with
    | .signal => .ok (g, kind.signal)
    | .wait => .ok (g, .waitSub)
    | .tryWait => .ok (g, .tryLoad)
    | .waitFor => .ok (g, .waitForSub)
    | .go _ => .error .disabled
  | .postAdd =>
    .ok ({ g with count := g.count + 1 }, if g.count.toInt < 0 then .nativePost else .outside)
  | .setLoad => .ok (g, .setCas g.count)
  | .setCas old =>
    if g.count = old ∧ c = .go false then
      .ok ({ g with count := newcount old }, if old.toInt < 0 then .nativePost else .outside)
    else .ok (g, .setCas g.count)
  | .nativePost => .ok ({ g with native := g.native + 1 }, .outside)
  | .waitSub =>
    .ok ({ g with count := g.count - 1 }, if g.count.toInt ≤ 0 then .nativeWait else .outside)
  | .nativeWait =>
    if g.native = 0 then .error .disabled else .ok ({ g with native := g.native - 1 }, .outside)
  | .tryLoad => .ok (g, .tryLoop g.count)
  | .tryLoop count =>
    if 0 < count.toInt then
      if g.count = count ∧ c = .go false then .ok ({ g with count := count - 1 }, .outside)
      else .ok (g, .tryLoop g.count)
    else .ok (g, .tryLoop count)
  | .waitForSub =>
    .ok ({ g with count := g.count - 1 }, if 0 < g.count.toInt then .outside else .nativeWaitFor)
  | .nativeWaitFor =>
    if c = .go true then .ok (g, .reload)
    else if g.native = 0 then .error .disabled
    else .ok ({ g with native := g.native - 1 }, .outside)
  | .reload => .ok (g, if 0 ≤ g.count.toInt then .nativeTryWait else .takeBack g.count)
  | .nativeTryWait =>
    if g.native = 0 then .ok (g, .reload) else .ok ({ g with native := g.native - 1 }, .outside)
  | .takeBack old =>
    if g.count = old then .ok ({ g with count := old + 1 }, .outside) else .ok (g, .reload)

variable {ι : Type}

/-- The threads take their steps in the order of `schedule`. -/
def runWaitable [DecidableEq ι] (kind : Kind) (schedule : List (ι × WaitChoice)) :
    Except Disabled (Threads ι Waitable WaitPc) :=
  run (Threads.step fun _ c g l => waitStep kind c g l) ⟨{}, fun _ => .outside⟩ schedule

/-! ## The gate -/

/-- What both are for. A thread goes on with a token; without one it is blocked, until a signal
releases it or it gives up. -/
structure Gate where
  tokens : Nat := 0
  blocked : Nat := 0
  /-- The threads that have been released and have not yet gone on. -/
  released : Nat := 0
  deriving DecidableEq, Repr

inductive GateOp
  | signal
  /-- A thread goes on at once, or is blocked. -/
  | pass
  | block
  /-- A released thread goes on. -/
  | wake
  /-- A thread that was blocked goes on without a token. -/
  | giveUp
  deriving DecidableEq, Repr

/-- The tokens after a signal that releases nobody. -/
def Kind.raise (tokens : Nat) : Kind → Nat
  | .semaphore => tokens + 1
  | .event => 1

def GateOp.step (kind : Kind) (x : Gate) : GateOp → Except Unit Gate
  | .signal =>
    if x.blocked = 0 then .ok { x with tokens := kind.raise x.tokens }
    else .ok { x with blocked := x.blocked - 1, released := x.released + 1 }
  | .pass => if x.tokens = 0 then .error () else .ok { x with tokens := x.tokens - 1 }
  | .block => if x.tokens = 0 then .ok { x with blocked := x.blocked + 1 } else .error ()
  | .wake => if x.released = 0 then .error () else .ok { x with released := x.released - 1 }
  | .giveUp => if x.blocked = 0 then .error () else .ok { x with blocked := x.blocked - 1 }

/-- The operation in which a step takes effect. -/
def gateOp (g : Waitable) (l : WaitPc) (c : WaitChoice) : Option GateOp :=
  match l with
  | .postAdd => some .signal
  | .setCas old => if g.count = old ∧ c = .go false then some .signal else none
  | .waitSub | .waitForSub => if 0 < g.count.toInt then some .pass else some .block
  | .tryLoop count =>
    if 0 < count.toInt ∧ g.count = count ∧ c = .go false then some .pass else none
  | .nativeWait => some .wake
  | .nativeWaitFor => if c = .go true then none else some .wake
  | .nativeTryWait => if g.native = 0 then none else some .wake
  | .takeBack old => if g.count = old then some .giveUp else none
  | _ => none

/-! ## The invariant -/

/-- It has subtracted 1 from the counter and has neither gone on nor taken it back. -/
def WaitPc.waiting : WaitPc → ℤ
  | .nativeWait | .nativeWaitFor | .reload | .nativeTryWait | .takeBack _ => 1
  | _ => 0

/-- It is about to post a token. -/
def WaitPc.posting : WaitPc → ℤ
  | .nativePost => 1
  | _ => 0

/-- What holds of a thread where it stands. -/
def WaitPc.Ok (kind : Kind) : WaitPc → Prop
  | .postAdd => kind = .semaphore
  | .setLoad | .setCas _ => kind = .event
  | .takeBack old => old.toInt < 0
  | _ => True

/-- The counter is the tokens without the blocked threads, and every released thread has its token
in the native semaphore or on the way there. -/
structure GateInv [Fintype ι] (kind : Kind) (s : Threads ι Waitable WaitPc) (x : Gate) : Prop where
  count_eq : s.shared.count.toInt = x.tokens - x.blocked
  apart : x.tokens = 0 ∨ x.blocked = 0
  native_eq : (s.shared.native : ℤ) + ∑ i, (s.locals i).posting = x.released
  waiting_eq : ∑ i, (s.locals i).waiting = x.blocked + x.released
  tokens_le : kind = .event → x.tokens ≤ 1
  stands : ∀ i, (s.locals i).Ok kind

/-- `post` does not add 1 to the largest number. -/
def Room (s : Threads ι Waitable WaitPc) (e : ι × WaitChoice) : Prop :=
  s.locals e.1 = .postAdd → s.shared.count ≠ 0x7fffffff

theorem toInt_add_one {w : BitVec 32} (h : w.toInt < 2 ^ 31 - 1) : (w + 1).toInt = w.toInt + 1 := by
  have hge : -2 ^ 31 ≤ w.toInt := w.le_toInt
  have hone : (1 : BitVec 32).toInt = 1 := rfl
  rw [BitVec.toInt_add, hone]
  refine Int.bmod_eq_of_le ?_ ?_ <;> omega

theorem toInt_sub_one {w : BitVec 32} (h : -2 ^ 31 < w.toInt) : (w - 1).toInt = w.toInt - 1 := by
  have hlt : w.toInt < 2 ^ 31 := w.toInt_lt
  have hone : (1 : BitVec 32).toInt = 1 := rfl
  rw [BitVec.toInt_sub, hone]
  refine Int.bmod_eq_of_le ?_ ?_ <;> omega

theorem WaitPc.waiting_le_one (pc : WaitPc) : pc.waiting ≤ 1 := by
  cases pc <;> simp [waiting]

theorem WaitPc.posting_nonneg (pc : WaitPc) : 0 ≤ pc.posting := by
  cases pc <;> simp [posting]

theorem sum_waiting_le [Fintype ι] (t : ι → WaitPc) : ∑ i, (t i).waiting ≤ Fintype.card ι := by
  calc ∑ i, (t i).waiting ≤ ∑ _i : ι, (1 : ℤ) := Finset.sum_le_sum fun i _ => (t i).waiting_le_one
    _ = Fintype.card ι := by simp

namespace GateInv

variable [Fintype ι] {kind : Kind} {s : Threads ι Waitable WaitPc} {x : Gate} {i : ι}

/-- The counter shows whether somebody is blocked. -/
theorem count_neg_iff (h : GateInv kind s x) : s.shared.count.toInt < 0 ↔ x.blocked ≠ 0 := by
  have hcount := h.count_eq
  have hapart := h.apart
  omega

theorem count_pos_iff (h : GateInv kind s x) : 0 < s.shared.count.toInt ↔ x.tokens ≠ 0 := by
  have hcount := h.count_eq
  have hapart := h.apart
  omega

variable [DecidableEq ι]

/-- What a step of one thread has to show. -/
theorem update (h : GateInv kind s x) {count : BitVec 32} {native tokens blocked released : Nat}
    {pc : WaitPc} (hcount : count.toInt = tokens - blocked) (hapart : tokens = 0 ∨ blocked = 0)
    (hnative : (native : ℤ) + pc.posting - released =
      s.shared.native + (s.locals i).posting - x.released)
    (hwaiting : (blocked : ℤ) + released - pc.waiting =
      x.blocked + x.released - (s.locals i).waiting)
    (htokens : kind = .event → tokens ≤ 1) (hpc : pc.Ok kind) :
    GateInv kind ⟨⟨count, native⟩, Function.update s.locals i pc⟩ ⟨tokens, blocked, released⟩ where
  count_eq := hcount
  apart := hapart
  native_eq := by
    have hold := h.native_eq
    show (native : ℤ) + ∑ j, (Function.update s.locals i pc j).posting = released
    rw [Threads.sum_update]
    omega
  waiting_eq := by
    have hold := h.waiting_eq
    show ∑ j, (Function.update s.locals i pc j).waiting = blocked + released
    rw [Threads.sum_update]
    omega
  tokens_le := htokens
  stands := by
    show ∀ j, (Function.update s.locals i pc j).Ok kind
    rw [Function.forall_update_iff s.locals (p := fun _ l => l.Ok kind)]
    exact ⟨hpc, fun j _ => h.stands j⟩

/-- A step that only the thread itself notices. -/
theorem stay (h : GateInv kind s x) {pc : WaitPc} (hposting : pc.posting = (s.locals i).posting)
    (hwaiting : pc.waiting = (s.locals i).waiting) (hpc : pc.Ok kind) :
    GateInv kind ⟨s.shared, Function.update s.locals i pc⟩ x := by
  refine h.update h.count_eq h.apart ?_ ?_ h.tokens_le hpc
  · rw [hposting]
  · rw [hwaiting]

/-- What a step has to show, `op` being what takes effect in it. -/
def Moves (kind : Kind) (s : Threads ι Waitable WaitPc) (x : Gate) (i : ι) (op : Option GateOp)
    (r : Waitable × WaitPc) : Prop :=
  ∃ x', run (GateOp.step kind) x op.toList = .ok x' ∧
    GateInv kind ⟨r.1, Function.update s.locals i r.2⟩ x'

theorem moves_none {r : Waitable × WaitPc}
    (h : GateInv kind ⟨r.1, Function.update s.locals i r.2⟩ x) : Moves kind s x i none r :=
  ⟨x, rfl, h⟩

theorem moves_some {op : GateOp} {r : Waitable × WaitPc} {y : Gate} (hop : op.step kind x = .ok y)
    (h : GateInv kind ⟨r.1, Function.update s.locals i r.2⟩ y) : Moves kind s x i (some op) r := by
  refine ⟨y, ?_, h⟩
  show run (GateOp.step kind) x [op] = .ok y
  rw [run, hop]
  rfl

/-- A step in which nothing takes effect. -/
theorem moves_stay (h : GateInv kind s x) {pc pc' : WaitPc} (hpc : s.locals i = pc)
    (hposting : pc'.posting = pc.posting) (hwaiting : pc'.waiting = pc.waiting)
    (hok : pc'.Ok kind) : Moves kind s x i none (s.shared, pc') := by
  subst hpc
  exact moves_none (h.stay hposting hwaiting hok)

/-- A signal, by which the counter goes up by 1 or is set to 1. -/
theorem signal (h : GateInv kind s x) (hposting : (s.locals i).posting = 0)
    (hwaiting : (s.locals i).waiting = 0) {count : BitVec 32}
    (hneg : s.shared.count.toInt < 0 → count.toInt = s.shared.count.toInt + 1)
    (hnonneg : ¬ s.shared.count.toInt < 0 → count.toInt = kind.raise x.tokens) :
    Moves kind s x i (some .signal) ({ s.shared with count := count },
      if s.shared.count.toInt < 0 then .nativePost else .outside) := by
  have hcount := h.count_eq
  have hapart := h.apart
  have hblocked := h.count_neg_iff
  split
  next hlt =>
    -- one of the blocked threads is released, and a token is posted for it
    have hne := hblocked.mp hlt
    refine moves_some (y := { x with blocked := x.blocked - 1, released := x.released + 1 })
      (if_neg hne) (h.update ?_ ?_ ?_ ?_ h.tokens_le trivial)
    · rw [hneg hlt, hcount]
      omega
    · omega
    · rw [hposting, show WaitPc.nativePost.posting = 1 from rfl]
      omega
    · rw [hwaiting, show WaitPc.nativePost.waiting = 0 from rfl]
      omega
  next hge =>
    have hzero : x.blocked = 0 := not_not.mp fun hc => hge (hblocked.mpr hc)
    refine moves_some (y := { x with tokens := kind.raise x.tokens }) (if_pos hzero)
      (h.update ?_ (Or.inr hzero) ?_ ?_ (fun hk => ?_) trivial)
    · rw [hnonneg hge, hzero, Nat.cast_zero, sub_zero]
    · rw [hposting]
      rfl
    · rw [hwaiting]
      rfl
    · rw [hk]
      exact le_refl 1

/-- A thread subtracts 1 and goes on at once, or is blocked. -/
theorem subtract (hι : Fintype.card ι < 2 ^ 31) (h : GateInv kind s x)
    (hposting : (s.locals i).posting = 0) (hwaiting : (s.locals i).waiting = 0) {pc q : WaitPc} (hpass : pc = .outside)
    (hposting' : q.posting = 0) (hwaiting' : q.waiting = 1) (hok : q.Ok kind) :
    Moves kind s x i (if 0 < s.shared.count.toInt then some .pass else some .block)
      ({ s.shared with count := s.shared.count - 1 }, if 0 < s.shared.count.toInt then pc else q) := by
  have hcount := h.count_eq
  have hapart := h.apart
  have htokens := h.count_pos_iff
  -- the threads that wait, this one among them, are not more than there are
  have hsum := sum_waiting_le (Function.update s.locals i q)
  rw [Threads.sum_update, h.waiting_eq, hwaiting, hwaiting'] at hsum
  have hcard : (Fintype.card ι : ℤ) < 2 ^ 31 := by exact_mod_cast hι
  have hsub := toInt_sub_one (w := s.shared.count) (by omega)
  split
  next hpos =>
    have hne := htokens.mp hpos
    subst hpass
    refine moves_some (y := { x with tokens := x.tokens - 1 }) (if_neg hne)
      (h.update ?_ (Or.inr (by omega)) ?_ ?_ (fun hk => ?_) trivial)
    · rw [hsub, hcount]
      omega
    · rw [hposting]
      rfl
    · rw [hwaiting]
      rfl
    · have := h.tokens_le hk
      omega
  next hle =>
    have hzero : x.tokens = 0 := not_not.mp fun hc => hle (htokens.mpr hc)
    refine moves_some (y := { x with blocked := x.blocked + 1 }) (if_pos hzero)
      (h.update ?_ (Or.inl hzero) ?_ ?_ h.tokens_le hok)
    · rw [hsub, hcount]
      omega
    · rw [hposting, hposting']
    · rw [hwaiting, hwaiting']
      omega

/-- A thread takes a token of the native semaphore, which has been posted for some thread. -/
theorem wake (h : GateInv kind s x) (hposting : (s.locals i).posting = 0)
    (hwaiting : (s.locals i).waiting = 1) (hnative : s.shared.native ≠ 0) :
    Moves kind s x i (some .wake) ({ s.shared with native := s.shared.native - 1 }, .outside) := by
  have hreleased := h.native_eq
  have hnonneg : 0 ≤ ∑ j, (s.locals j).posting :=
    Finset.sum_nonneg fun j _ => (s.locals j).posting_nonneg
  refine moves_some (y := { x with released := x.released - 1 }) (if_neg (by omega))
    (h.update h.count_eq h.apart ?_ ?_ h.tokens_le trivial)
  · rw [hposting, show WaitPc.outside.posting = 0 from rfl]
    omega
  · rw [hwaiting, show WaitPc.outside.waiting = 0 from rfl]
    omega

/-- A thread whose time is over takes its 1 back. -/
theorem giveUp (h : GateInv kind s x) (hposting : (s.locals i).posting = 0)
    (hwaiting : (s.locals i).waiting = 1) (hneg : s.shared.count.toInt < 0) :
    Moves kind s x i (some .giveUp) ({ s.shared with count := s.shared.count + 1 }, .outside) := by
  have hcount := h.count_eq
  have hne := h.count_neg_iff.mp hneg
  have hapart := h.apart
  refine moves_some (y := { x with blocked := x.blocked - 1 }) (if_neg hne)
    (h.update ?_ (Or.inl (by omega)) ?_ ?_ h.tokens_le trivial)
  · rw [toInt_add_one (by omega), hcount]
    omega
  · rw [hposting]
    rfl
  · rw [hwaiting, show WaitPc.outside.waiting = 0 from rfl]
    omega

theorem newcount_of_neg {w : BitVec 32} (h : w.toInt < 0) : (newcount w).toInt = w.toInt + 1 := by
  rw [newcount, if_neg (Int.not_le.mpr h)]
  exact toInt_add_one (by omega)

theorem newcount_of_nonneg {w : BitVec 32} (h : ¬ w.toInt < 0) : (newcount w).toInt = 1 := by
  rw [newcount, if_pos (Int.not_lt.mp h)]
  rfl

/-- **One atomic operation** is a step of the gate, or none. -/
theorem step (hι : Fintype.card ι < 2 ^ 31) (h : GateInv kind s x) {e : ι × WaitChoice}
    (hroom : Room s e) {s' : Threads ι Waitable WaitPc}
    (hs : Threads.step (fun _ c g l => waitStep kind c g l) s e = .ok s') :
    ∃ x', run (GateOp.step kind) x (gateOp s.shared (s.locals e.1) e.2).toList = .ok x' ∧
      GateInv kind s' x' := by
  obtain ⟨g, pc, hact, rfl⟩ := Threads.step_ok hs
  obtain ⟨i, c⟩ := e
  show Moves kind s x i (gateOp s.shared (s.locals i) c) (g, pc)
  dsimp only at hact
  have hstands := h.stands i
  generalize hr : (g, pc) = r at hact
  cases hpc : s.locals i with
  | outside =>
    rw [hpc] at hact
    cases c with
    | signal =>
      obtain rfl := Except.ok.inj hact
      cases kind with
      | semaphore => exact h.moves_stay hpc rfl rfl rfl
      | event => exact h.moves_stay hpc rfl rfl rfl
    | wait =>
      obtain rfl := Except.ok.inj hact
      exact h.moves_stay hpc rfl rfl trivial
    | tryWait =>
      obtain rfl := Except.ok.inj hact
      exact h.moves_stay hpc rfl rfl trivial
    | waitFor =>
      obtain rfl := Except.ok.inj hact
      exact h.moves_stay hpc rfl rfl trivial
    | go fails => cases hact
  | postAdd =>
    rw [hpc] at hact hstands
    obtain rfl := Except.ok.inj hact
    have hkind : kind = .semaphore := hstands
    -- the only step that could overflow
    have hne : s.shared.count.toInt ≠ 2 ^ 31 - 1 := fun hc =>
      hroom hpc (BitVec.eq_of_toInt_eq (hc.trans (by rfl)))
    have hlt : s.shared.count.toInt < 2 ^ 31 := s.shared.count.toInt_lt
    have hadd := toInt_add_one (w := s.shared.count) (by omega)
    refine h.signal (by rw [hpc]; rfl) (by rw [hpc]; rfl) (fun _ => hadd) (fun hge => ?_)
    have hcount := h.count_eq
    have hblocked := h.count_neg_iff
    have hzero : x.blocked = 0 := not_not.mp fun hc => hge (hblocked.mpr hc)
    rw [hadd, hcount, hkind, hzero]
    show (x.tokens : ℤ) - 0 + 1 = (x.tokens + 1 : ℕ)
    omega
  | setLoad =>
    rw [hpc] at hact hstands
    obtain rfl := Except.ok.inj hact
    exact h.moves_stay hpc rfl rfl hstands
  | setCas old =>
    rw [hpc] at hact hstands
    have hkind : kind = .event := hstands
    unfold waitStep at hact
    unfold gateOp
    dsimp only at hact ⊢
    split at hact
    next hcas =>
      -- the counter is still what it was when `set` looked at it
      obtain rfl := Except.ok.inj hact
      obtain rfl := hcas.1
      rw [if_pos hcas]
      refine h.signal (by rw [hpc]; rfl) (by rw [hpc]; rfl) newcount_of_neg fun hge => ?_
      rw [newcount_of_nonneg hge, hkind]
      rfl
    next hcas =>
      obtain rfl := Except.ok.inj hact
      rw [if_neg hcas]
      exact h.moves_stay hpc rfl rfl hkind
  | nativePost =>
    rw [hpc] at hact
    obtain rfl := Except.ok.inj hact
    refine moves_none (h.update h.count_eq h.apart ?_ ?_ h.tokens_le trivial)
    · rw [hpc, show WaitPc.nativePost.posting = 1 from rfl, show WaitPc.outside.posting = 0 from rfl]
      omega
    · rw [hpc]
      rfl
  | waitSub =>
    rw [hpc] at hact
    obtain rfl := Except.ok.inj hact
    -- `wait` asks for `<= 0` and `wait_for` for `> 0`
    have hflip : (if s.shared.count.toInt ≤ 0 then WaitPc.nativeWait else .outside) =
        if 0 < s.shared.count.toInt then .outside else .nativeWait := by
      simp only [← Int.not_lt, ite_not]
    rw [hflip]
    exact h.subtract hι (congrArg WaitPc.posting hpc) (congrArg WaitPc.waiting hpc) rfl rfl rfl trivial
  | nativeWait =>
    rw [hpc] at hact
    unfold waitStep at hact
    dsimp only at hact
    split at hact
    next => cases hact
    next hnative =>
      obtain rfl := Except.ok.inj hact
      exact h.wake (by rw [hpc]; rfl) (by rw [hpc]; rfl) hnative
  | tryLoad =>
    rw [hpc] at hact
    obtain rfl := Except.ok.inj hact
    exact h.moves_stay hpc rfl rfl trivial
  | tryLoop count =>
    rw [hpc] at hact
    unfold waitStep at hact
    unfold gateOp
    dsimp only at hact ⊢
    split at hact
    next hpos =>
      split at hact
      next hcas =>
        obtain rfl := Except.ok.inj hact
        obtain rfl := hcas.1
        rw [if_pos ⟨hpos, hcas⟩]
        -- a successful exchange is a subtraction that goes on at once
        have hsub := h.subtract (i := i) (q := .nativeWait) hι (by rw [hpc]; rfl)
          (by rw [hpc]; rfl) rfl rfl rfl trivial
        rwa [if_pos hpos, if_pos hpos] at hsub
      next hcas =>
        obtain rfl := Except.ok.inj hact
        rw [if_neg fun hc => hcas hc.2]
        exact h.moves_stay hpc rfl rfl trivial
    next hle =>
      obtain rfl := Except.ok.inj hact
      rw [if_neg fun hc => hle hc.1]
      exact h.moves_stay hpc rfl rfl trivial
  | waitForSub =>
    rw [hpc] at hact
    obtain rfl := Except.ok.inj hact
    exact h.subtract hι (congrArg WaitPc.posting hpc) (congrArg WaitPc.waiting hpc) rfl rfl rfl trivial
  | nativeWaitFor =>
    rw [hpc] at hact
    unfold waitStep at hact
    unfold gateOp
    dsimp only at hact ⊢
    split at hact
    next hfails =>
      -- the time is over, and the thread is still counted as blocked
      obtain rfl := Except.ok.inj hact
      rw [if_pos hfails]
      exact h.moves_stay hpc rfl rfl trivial
    next hfails =>
      rw [if_neg hfails]
      split at hact
      next => cases hact
      next hnative =>
        obtain rfl := Except.ok.inj hact
        exact h.wake (by rw [hpc]; rfl) (by rw [hpc]; rfl) hnative
  | reload =>
    rw [hpc] at hact
    obtain rfl := Except.ok.inj hact
    split
    next => exact h.moves_stay hpc rfl rfl trivial
    next hneg => exact h.moves_stay hpc rfl rfl (Int.not_le.mp hneg)
  | nativeTryWait =>
    rw [hpc] at hact
    unfold waitStep at hact
    unfold gateOp
    dsimp only at hact ⊢
    split at hact
    next hnative =>
      obtain rfl := Except.ok.inj hact
      rw [if_pos hnative]
      exact h.moves_stay hpc rfl rfl trivial
    next hnative =>
      obtain rfl := Except.ok.inj hact
      rw [if_neg hnative]
      exact h.wake (by rw [hpc]; rfl) (by rw [hpc]; rfl) hnative
  | takeBack old =>
    rw [hpc] at hact hstands
    unfold waitStep at hact
    unfold gateOp
    dsimp only at hact ⊢
    split at hact
    next heq =>
      -- the counter is as negative as it was, so some thread is still blocked
      obtain rfl := Except.ok.inj hact
      subst heq
      rw [if_pos rfl]
      exact h.giveUp (by rw [hpc]; rfl) (by rw [hpc]; rfl) hstands
    next heq =>
      obtain rfl := Except.ok.inj hact
      rw [if_neg heq]
      exact h.moves_stay hpc rfl rfl trivial

omit [DecidableEq ι] in
theorem start (kind : Kind) :
    GateInv kind (⟨{}, fun _ => .outside⟩ : Threads ι Waitable WaitPc) {} where
  count_eq := rfl
  apart := Or.inl rfl
  native_eq := by
    have hzero : ∑ _i : ι, WaitPc.outside.posting = 0 := Finset.sum_eq_zero fun _ _ => rfl
    show (0 : ℤ) + ∑ _i : ι, WaitPc.outside.posting = 0
    rw [hzero, zero_add]
  waiting_eq := Finset.sum_eq_zero fun _ _ => rfl
  tokens_le _ := Nat.zero_le 1
  stands _ := trivial

end GateInv

/-! ## Runs -/

section Runs

variable [DecidableEq ι] [Fintype ι] {schedule : List (ι × WaitChoice)}
  {s : Threads ι Waitable WaitPc}

/-- The steps of a run, as the gate sees them. -/
abbrev gateOps (kind : Kind) (schedule : List (ι × WaitChoice)) : List GateOp :=
  Threads.emits (fun _ c g l => waitStep kind c g l) gateOp ⟨{}, fun _ => .outside⟩ schedule

/-- **A semaphore loses no post and lets no thread go on without one**, as long as the counter has
room. -/
theorem semaphore_refines (hι : Fintype.card ι < 2 ^ 31)
    (hroom : RunAll (Threads.step fun _ c g l => waitStep .semaphore c g l) Room
      ⟨{}, fun _ => .outside⟩ schedule) (hr : runWaitable .semaphore schedule = .ok s) :
    ∃ x, run (GateOp.step .semaphore) {} (gateOps .semaphore schedule) = .ok x ∧
      s.shared.count.toInt = x.tokens - x.blocked ∧
      (s.shared.native : ℤ) + ∑ i, (s.locals i).posting = x.released ∧
      ∑ i, (s.locals i).waiting = x.blocked + x.released ∧ (x.tokens = 0 ∨ x.blocked = 0) := by
  obtain ⟨x, hrun, h⟩ := Threads.run_matches_of (R := GateInv .semaphore)
    (fun s e s' x hroom h hs => h.step hι hroom hs) (GateInv.start .semaphore) hroom hr
  exact ⟨x, hrun, h.count_eq, h.native_eq, h.waiting_eq, h.apart⟩

/-- The time of the waiting thread is over just when the other one has added its 1: the token that is
on its way has to be taken. -/
def postAfterTimeout : List (Bool × WaitChoice) :=
  [(false, .waitFor), (false, .go false), (false, .go true), (true, .signal), (true, .go false),
    (false, .go false), (false, .go false), (true, .go false), (false, .go false),
    (false, .go false)]

theorem semaphore_refines_postAfterTimeout :
    ∃ s, runWaitable .semaphore postAfterTimeout = .ok s ∧
      ∃ x, run (GateOp.step .semaphore) {} (gateOps .semaphore postAfterTimeout) = .ok x ∧
        s.shared.count.toInt = x.tokens - x.blocked ∧
        (s.shared.native : ℤ) + ∑ i, (s.locals i).posting = x.released ∧
        ∑ i, (s.locals i).waiting = x.blocked + x.released ∧ (x.tokens = 0 ∨ x.blocked = 0) := by
  obtain ⟨s, hs⟩ := exists_of_isOk (x := runWaitable .semaphore postAfterTimeout) rfl
  have hroom : ∀ {s : Threads Bool Waitable WaitPc} {e : Bool × WaitChoice},
      s.shared.count ≠ 0x7fffffff → Room s e := fun h _ => h
  refine ⟨s, hs, semaphore_refines (by decide) ?_ hs⟩
  iterate 10 refine Threads.runAll_cons (hroom (by decide)) rfl ?_
  exact trivial

omit [DecidableEq ι] in
/-- `event` never gets to `postAdd`. -/
theorem GateInv.room {x : Gate} (h : GateInv .event s x) (e : ι × WaitChoice) : Room s e := by
  intro hpc
  have hstands := h.stands e.1
  rw [hpc] at hstands
  cases hstands

/-- **An event releases one blocked thread for each `set`**, and without one it is set for the next
thread, once. -/
theorem event_refines (hι : Fintype.card ι < 2 ^ 31) (hr : runWaitable .event schedule = .ok s) :
    ∃ x, run (GateOp.step .event) {} (gateOps .event schedule) = .ok x ∧
      s.shared.count.toInt = x.tokens - x.blocked ∧
      (s.shared.native : ℤ) + ∑ i, (s.locals i).posting = x.released ∧
      ∑ i, (s.locals i).waiting = x.blocked + x.released ∧ (x.tokens = 0 ∨ x.blocked = 0) ∧
      x.tokens ≤ 1 := by
  obtain ⟨x, hrun, h⟩ := Threads.run_matches (R := GateInv .event)
    (fun s e s' x h hs => h.step hι (h.room e) hs) (GateInv.start .event) hr
  exact ⟨x, hrun, h.count_eq, h.native_eq, h.waiting_eq, h.apart, h.tokens_le rfl⟩

/-- Two calls of `set` before the first `wait`, and one that releases the second. -/
def setTwice : List (Bool × WaitChoice) :=
  [(true, .signal), (true, .go false), (true, .go false), (true, .signal), (true, .go false),
    (true, .go false), (false, .wait), (false, .go false), (false, .wait), (false, .go false),
    (true, .signal), (true, .go false), (true, .go true), (true, .go false), (true, .go false),
    (false, .go false)]

theorem event_refines_setTwice :
    ∃ s, runWaitable .event setTwice = .ok s ∧
      ∃ x, run (GateOp.step .event) {} (gateOps .event setTwice) = .ok x ∧
        s.shared.count.toInt = x.tokens - x.blocked ∧
        (s.shared.native : ℤ) + ∑ i, (s.locals i).posting = x.released ∧
        ∑ i, (s.locals i).waiting = x.blocked + x.released ∧ (x.tokens = 0 ∨ x.blocked = 0) ∧
        x.tokens ≤ 1 := by
  obtain ⟨s, hs⟩ := exists_of_isOk (x := runWaitable .event setTwice) rfl
  exact ⟨s, hs, event_refines (by decide) hs⟩

example : gateOps .event setTwice = [.signal, .signal, .pass, .block, .signal, .wake] := by decide

end Runs

/-! ## `try_wait` -/

/-- **`try_wait` cannot fail**: a thread that finds nothing stays in its loop for ever, whatever is
signalled later. -/
theorem try_wait_spins [DecidableEq ι] {kind : Kind} {s s₁ s' : Threads ι Waitable WaitPc} {i : ι}
    {fails : Bool} {schedule : List (ι × WaitChoice)} (hpc : s.locals i = .tryLoad)
    (hcount : s.shared.count.toInt ≤ 0)
    (hstep : Threads.step (fun _ c g l => waitStep kind c g l) s (i, .go fails) = .ok s₁)
    (hr : run (Threads.step fun _ c g l => waitStep kind c g l) s₁ schedule = .ok s') :
    s'.locals i = .tryLoop s.shared.count := by
  refine run_invariant (I := fun s' => s'.locals i = .tryLoop s.shared.count) (P := fun _ => True)
    (fun s₂ e s₃ _ h hs => ?_) (fun _ _ => trivial) ?_ hr
  · obtain ⟨g, pc, hact, rfl⟩ := Threads.step_ok hs
    show Function.update s₂.locals e.1 pc i = .tryLoop s.shared.count
    rcases eq_or_ne i e.1 with rfl | hne
    · rw [h, waitStep, if_neg (Int.not_lt.mpr hcount)] at hact
      rw [Function.update_self]
      exact (Prod.mk.inj (Except.ok.inj hact)).2.symm
    · rw [Function.update_of_ne hne]
      exact h
  · obtain ⟨g, pc, hact, rfl⟩ := Threads.step_ok hstep
    dsimp only at hact
    rw [hpc] at hact
    show Function.update s.locals i pc i = .tryLoop s.shared.count
    rw [Function.update_self]
    exact (Prod.mk.inj (Except.ok.inj hact)).2.symm

end Aoo.Sync
