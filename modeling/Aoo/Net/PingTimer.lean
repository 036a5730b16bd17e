import Aoo.Lib.Run
import Mathlib.Data.Rat.Floor
import Mathlib.Algebra.Order.Floor.Semiring
import Mathlib.Tactic.Linarith
import Mathlib.Tactic.NormNum

/-!
# The ping timer

Clients, peers and the server watch their remote end with a `ping_timer`: it asks for a ping from
time to time, and when nothing has been heard for `probeTime` it sends up to `probeCount` probe
pings before it gives the remote end up. `pong` and `reset` only set flags; the next
`update` acts on them.

`reset` starts the probe counter again, `pong` does not. So after a probe phase in which
the remote end has answered, the next silence gets only the rest of the probe pings, or
none. The run below keeps when the timer last heard something, how many probe
pings were on the counter at that time, and how many have been sent since.

**Main result** (`inactive_iff`): the timer gives up only after more than `probeTime` and
at least `probeCount` probe pings if and only if the counter was zero when it last heard
something, the deadline is not past the largest time tag and the probe pings are not used
up at the very deadline.
-/

namespace Aoo.Net

open Lib

/-! ## Time tags -/

/-- `time_tag`: the upper half counts seconds, the lower half parts of `2⁻³²` seconds. -/
abbrev TimeTag := UInt64

namespace TimeTag

/-- `time_tag::from_seconds` -/
def fromSeconds (seconds : ℚ) : TimeTag :=
  let high := ⌊seconds⌋₊
  let fract := seconds - high
  let low := ⌊fract * 4294967296⌋₊
  UInt64.ofNat high <<< 32 ||| UInt64.ofNat low

/-- `time_tag::to_seconds` -/
def toSeconds (t : TimeTag) : ℚ :=
  let high := t >>> 32
  let low := t &&& 0xFFFFFFFF
  (high.toNat : ℚ) + (low.toNat : ℚ) / 4294967296

/-- `time_tag::duration` -/
def duration (t₁ t₂ : TimeTag) : ℚ :=
  if t₁ ≤ t₂ then toSeconds (t₂ - t₁) else toSeconds (t₁ - t₂) * -1

theorem toSeconds_eq (t : TimeTag) : toSeconds t = (t.toNat : ℚ) / 4294967296 := by
  have hhigh : (t >>> 32).toNat = t.toNat / 4294967296 := by
    rw [UInt64.toNat_shiftRight, Nat.shiftRight_eq_div_pow]
    rfl
  have hlow : (t &&& 0xFFFFFFFF).toNat = t.toNat % 4294967296 := by
    rw [UInt64.toNat_and]
    exact Nat.and_two_pow_sub_one_eq_mod t.toNat 32
  rw [toSeconds, hhigh, hlow, add_div_eq_mul_add_div _ _ (by norm_num)]
  congr 1
  exact_mod_cast Nat.div_add_mod' t.toNat 4294967296

theorem toNat_fromSeconds (s : ℚ) (h₀ : 0 ≤ s) (h : s < 4294967296) :
    (fromSeconds s).toNat = ⌊s * 4294967296⌋₊ := by
  have hhigh : ⌊s⌋₊ < 4294967296 := (Nat.floor_lt h₀).mpr (by exact_mod_cast h)
  have hfract : (s - (⌊s⌋₊ : ℚ)) * 4294967296 < (4294967296 : ℕ) := by
    have := Nat.lt_floor_add_one s
    push_cast
    linarith
  have hfract₀ : 0 ≤ (s - (⌊s⌋₊ : ℚ)) * 4294967296 := by
    have := Nat.floor_le h₀
    linarith
  have hlow : ⌊(s - (⌊s⌋₊ : ℚ)) * 4294967296⌋₊ < 4294967296 := (Nat.floor_lt hfract₀).mpr hfract
  have hsum : s * 4294967296 =
      (s - (⌊s⌋₊ : ℚ)) * 4294967296 + ((⌊s⌋₊ * 4294967296 : ℕ) : ℚ) := by
    push_cast
    ring
  rw [hsum, Nat.floor_add_natCast hfract₀, fromSeconds, UInt64.toNat_or, UInt64.toNat_shiftLeft,
    UInt64.toNat_ofNat', UInt64.toNat_ofNat', Nat.mod_eq_of_lt (show ⌊s⌋₊ < 2 ^ 64 by omega),
    Nat.mod_eq_of_lt (show ⌊(s - (⌊s⌋₊ : ℚ)) * 4294967296⌋₊ < 2 ^ 64 by omega)]
  show ⌊s⌋₊ <<< 32 % 2 ^ 64 ||| _ = _
  rw [Nat.mod_eq_of_lt (by rw [Nat.shiftLeft_eq]; omega), ← Nat.shiftLeft_add_eq_or_of_lt hlow,
    Nat.shiftLeft_eq]
  omega

/-- **Time passed.** A moment not before the deadline is more than `p` seconds later if and only
if the deadline did not wrap and is not this very moment. -/
theorem lt_duration_iff (p : ℚ) (h₀ : 0 ≤ p) {heard now : TimeTag} (hle : heard ≤ now)
    (hdue : heard + fromSeconds p ≤ now) :
    p < duration heard now ↔
      (heard.toNat : ℚ) + p * 4294967296 < 18446744073709551616 ∧
        now ≠ heard + fromSeconds p := by
  have hnat : heard.toNat ≤ now.toNat := UInt64.le_iff_toNat_le.mp hle
  have hlt : now.toNat < 2 ^ 64 := now.toNat_lt
  rw [duration, if_pos hle, toSeconds_eq, UInt64.toNat_sub_of_le _ _ hle,
    lt_div_iff₀ (by norm_num)]
  by_cases hp : p < 4294967296
  · have hp₀ : 0 ≤ p * 4294967296 := by linarith
    have hticks := toNat_fromSeconds p h₀ hp
    rw [UInt64.le_iff_toNat_le, UInt64.toNat_add, hticks] at hdue
    rw [Ne, ← UInt64.toNat_inj, UInt64.toNat_add, hticks, ← Nat.floor_lt hp₀]
    have hwrap : (heard.toNat : ℚ) + p * 4294967296 < 18446744073709551616 ↔
        ⌊p * 4294967296⌋₊ < 18446744073709551616 - heard.toNat := by
      rw [Nat.floor_lt hp₀, Nat.cast_sub (by omega)]
      push_cast
      constructor <;> intro h <;> linarith
    rw [hwrap]
    omega
  · have hbound : ((now.toNat - heard.toNat : ℕ) : ℚ) < 18446744073709551616 := by
      exact_mod_cast (show now.toNat - heard.toNat < 18446744073709551616 by omega)
    have hbase : (0 : ℚ) ≤ (heard.toNat : ℚ) := Nat.cast_nonneg _
    refine iff_of_false (by linarith) fun h => ?_
    linarith [h.1]

end TimeTag

/-! ## The timer -/

/-- `AooPingSettings`. No time tag stands for a negative number of seconds. -/
structure AooPingSettings where
  interval : ℚ
  probeTime : ℚ
  probeInterval : ℚ
  probeCount : Int
  interval_nonneg : 0 ≤ interval
  probeTime_nonneg : 0 ≤ probeTime
  probeInterval_nonneg : 0 ≤ probeInterval

/-- `ping_state` -/
inductive PingState where
  | ping
  | probe
  | inactive
deriving DecidableEq, Repr

/-- `ping_result` -/
structure PingResult where
  state : PingState
  ping : Bool
  wait : ℚ
deriving DecidableEq

/-- `ping_timer`. The counter does not wrap here: it grows by one with each probe ping. -/
structure PingTimer where
  nextPing : TimeTag := 0
  deadline : TimeTag := 0
  probeCount : Int := 0
  state : PingState
  resetFlag : Bool := true
  pongFlag : Bool := false
deriving DecidableEq

namespace PingTimer

/-- `ping_timer::reset` -/
def reset (t : PingTimer) : PingTimer :=
  { t with resetFlag := true }

/-- `ping_timer::pong` -/
def pong (t : PingTimer) : PingTimer :=
  { t with pongFlag := true }

/-- The first half of `update`: flags and deadline. `none` is the early return of an inactive
timer that sends no pings. -/
def poll (t : PingTimer) (now : TimeTag) (settings : AooPingSettings) (pingWhenInactive : Bool) :
    Option PingTimer :=
  if t.resetFlag then
    some { t with
      resetFlag := false
      nextPing := now
      deadline := now + TimeTag.fromSeconds settings.probeTime
      probeCount := 0
      state := .ping }
  else if t.pongFlag then
    -- the probe counter is not touched
    some { t with
      pongFlag := false
      deadline := now + TimeTag.fromSeconds settings.probeTime
      state := .ping }
  else if t.state = .ping ∧ t.deadline ≤ now then
    some { t with state := .probe, nextPing := now }
  else if pingWhenInactive = false ∧ t.state = .inactive then
    none
  else
    some t

/-- The end of `update`. -/
def result (t : PingTimer) (now : TimeTag) (ping : Bool) : PingTimer × PingResult :=
  (t, { state := t.state, ping := ping, wait := max 0 (TimeTag.duration now t.nextPing) })

/-- A ping is sent, the next one is due after `interval`. -/
def sendPing (t : PingTimer) (now : TimeTag) (interval : ℚ) : PingTimer × PingResult :=
  result { t with nextPing := t.nextPing + TimeTag.fromSeconds interval } now true

/-- The second half of `update`: is a ping due? -/
def schedule (t : PingTimer) (now : TimeTag) (settings : AooPingSettings)
    (pingWhenInactive : Bool) : PingTimer × PingResult :=
  if t.nextPing ≤ now then
    if t.state = .probe then
      let t' := { t with probeCount := t.probeCount + 1 }
      if settings.probeCount < t'.probeCount then
        let t' := { t' with state := .inactive }
        if pingWhenInactive then
          sendPing t' now settings.interval
        else
          (t', { state := .inactive, ping := false, wait := -1 })
      else
        sendPing t' now settings.probeInterval
    else
      sendPing t now settings.interval
  else
    result t now false

/-- `ping_timer::update` -/
def update (t : PingTimer) (now : TimeTag) (settings : AooPingSettings)
    (pingWhenInactive : Bool) : PingTimer × PingResult :=
  match t.poll now settings pingWhenInactive with
  | some t' => t'.schedule now settings pingWhenInactive
  | none => (t, { state := .inactive, ping := false, wait := -1 })

end PingTimer

/-! ## Runs -/

/-- What happens to a timer. -/
inductive TimerAction where
  | update (now : TimeTag) (pingWhenInactive : Bool)
  | pong
  | reset
deriving DecidableEq

/-- The timer and what it has done about the present silence: the time of the last update
that acted on `reset` or `pong`, the probe counter it has left, and the number of probe
pings since. -/
structure Watch where
  timer : PingTimer
  heard : TimeTag := 0
  carried : Int := 0
  probes : Nat := 0
deriving DecidableEq

namespace Watch

/-- A new timer. Its `state_` is not initialised. -/
def init (state : PingState) : Watch :=
  { timer := { state := state } }

/-- One call. -/
def step (settings : AooPingSettings) (w : Watch) : TimerAction → Watch
  | .reset => { w with timer := w.timer.reset }
  | .pong => { w with timer := w.timer.pong }
  | .update now pingWhenInactive =>
    let r := w.timer.update now settings pingWhenInactive
    if w.timer.resetFlag ∨ w.timer.pongFlag then
      { timer := r.1, heard := now, carried := r.1.probeCount, probes := 0 }
    else if r.2.ping = true ∧ r.2.state = .probe then
      { w with timer := r.1, probes := w.probes + 1 }
    else
      { w with timer := r.1 }

/-- If the call gives the remote end up, more than `probeTime` and at least `probeCount` probe
pings have passed since the timer last heard something. -/
def EnoughSilence (settings : AooPingSettings) (w : Watch) : TimerAction → Prop
  | .update now pingWhenInactive =>
    let w' := w.step settings (.update now pingWhenInactive)
    w.timer.state ≠ .inactive → w'.timer.state = .inactive →
      settings.probeTime < TimeTag.duration w'.heard now ∧
        settings.probeCount ≤ (w'.probes : Int)
  | _ => True

/-- The next probe ping is due. -/
def ProbeDue (t : PingTimer) (now : TimeTag) : Prop :=
  t.state = .ping ∧ t.deadline ≤ now ∨ t.state = .probe ∧ t.nextPing ≤ now

/-- A probe ping is due, but the counter says that none is left. -/
def UsedUp (settings : AooPingSettings) (t : PingTimer) (now : TimeTag) : Prop :=
  t.resetFlag = false ∧ t.pongFlag = false ∧ ProbeDue t now ∧
    settings.probeCount ≤ t.probeCount

/-- When the probe pings are used up, none of them has been counted before the timer last
heard something, the deadline did not wrap and it is not this very moment. -/
def Uncarried (settings : AooPingSettings) (w : Watch) : TimerAction → Prop
  | .update now _ =>
    UsedUp settings w.timer now →
      (w.carried = 0 ∨ settings.probeCount ≤ 0) ∧
        (w.heard.toNat : ℚ) + settings.probeTime * 4294967296 < 18446744073709551616 ∧
        now ≠ w.timer.deadline
  | _ => True

end Watch

/-- The time of an update. -/
def TimerAction.time? : TimerAction → Option TimeTag
  | .update now _ => some now
  | _ => none

/-- No update comes before `last` or before an earlier one. -/
def Nondecreasing : TimeTag → List TimerAction → Prop
  | _, [] => True
  | last, a :: as => (∀ now ∈ a.time?, last ≤ now) ∧ Nondecreasing (a.time?.getD last) as

namespace Watch

variable {settings : AooPingSettings} {t : PingTimer} {w : Watch} {last now : TimeTag}

/-! ## What one update does -/

/-- Outside of the probe state the second half of `update` only moves the next ping. -/
theorem schedule_of_ne_probe (pingWhenInactive : Bool)
    (h : ¬ (t.state = .probe ∧ t.nextPing ≤ now)) :
    let r := t.schedule now settings pingWhenInactive
    r.1.resetFlag = t.resetFlag ∧ r.1.state = t.state ∧ r.1.deadline = t.deadline ∧
      r.1.probeCount = t.probeCount ∧ ¬ (r.2.ping = true ∧ r.2.state = .probe) := by
  intro r
  simp only [r, PingTimer.schedule]
  split
  next hnext =>
    have hstate : t.state ≠ .probe := fun hs => h ⟨hs, hnext⟩
    rw [if_neg hstate]
    exact ⟨rfl, rfl, rfl, rfl, fun hping => hstate hping.2⟩
  next => exact ⟨rfl, rfl, rfl, rfl, fun hping => absurd hping.1 nofun⟩

/-- An update that has heard something goes back to the ping state. -/
theorem update_heard (pingWhenInactive : Bool) (h : t.resetFlag ∨ t.pongFlag) :
    let t' := (t.update now settings pingWhenInactive).1
    t'.resetFlag = false ∧ t'.state = .ping ∧
      t'.deadline = now + TimeTag.fromSeconds settings.probeTime ∧
      (t'.probeCount = 0 ∨ t'.probeCount = t.probeCount) := by
  intro t'
  have hpoll : ∃ u : PingTimer, t.poll now settings pingWhenInactive = some u ∧
      u.resetFlag = false ∧ u.state = .ping ∧
      u.deadline = now + TimeTag.fromSeconds settings.probeTime ∧
      (u.probeCount = 0 ∨ u.probeCount = t.probeCount) := by
    by_cases hr : t.resetFlag = true
    · exact ⟨_, if_pos hr, rfl, rfl, rfl, Or.inl rfl⟩
    · refine ⟨_, (if_neg hr).trans (if_pos (h.resolve_left hr)), ?_, rfl, rfl, Or.inr rfl⟩
      exact Bool.eq_false_iff.mpr hr
  obtain ⟨u, hu, hreset, hstate, hdeadline, hcount⟩ := hpoll
  obtain ⟨h₁, h₂, h₃, h₄, -⟩ := @schedule_of_ne_probe settings u now
    pingWhenInactive (by rw [hstate]; nofun)
  simp only [t', PingTimer.update, hu]
  rw [h₁, h₂, h₃, h₄]
  exact ⟨hreset, hstate, hdeadline, hcount⟩

/-- Without a flag and as long as no probe ping is due, nothing changes but the time of the
next ping. -/
theorem update_idle (pingWhenInactive : Bool) (hr : t.resetFlag = false)
    (hp : t.pongFlag = false) (hdue : ¬ ProbeDue t now) :
    let r := t.update now settings pingWhenInactive
    r.1.resetFlag = false ∧ r.1.state = t.state ∧ r.1.deadline = t.deadline ∧
      r.1.probeCount = t.probeCount ∧ ¬ (r.2.ping = true ∧ r.2.state = .probe) := by
  intro r
  have hping : ¬ (t.state = .ping ∧ t.deadline ≤ now) := fun h => hdue (Or.inl h)
  have hprobe : ¬ (t.state = .probe ∧ t.nextPing ≤ now) := fun h => hdue (Or.inr h)
  simp only [r, PingTimer.update, PingTimer.poll, hr, hp, if_neg hping, Bool.false_eq_true,
    if_false]
  by_cases hquiet : pingWhenInactive = false ∧ t.state = .inactive
  · rw [if_pos hquiet]
    exact ⟨hr, rfl, rfl, rfl, fun h => absurd h.1 nofun⟩
  · rw [if_neg hquiet, ← hr]
    exact schedule_of_ne_probe pingWhenInactive hprobe

/-- When a probe ping is due, it is sent if the counter allows it; otherwise the remote end is
given up. -/
theorem update_due (pingWhenInactive : Bool) (hr : t.resetFlag = false)
    (hp : t.pongFlag = false) (hdue : ProbeDue t now) :
    let r := t.update now settings pingWhenInactive
    r.1.resetFlag = false ∧ r.1.deadline = t.deadline ∧ r.1.probeCount = t.probeCount + 1 ∧
      if settings.probeCount ≤ t.probeCount then
        r.1.state = .inactive ∧ r.2.state = .inactive
      else
        r.1.state = .probe ∧ r.2.ping = true ∧ r.2.state = .probe := by
  intro r
  have hstart : ∃ t' : PingTimer, t.poll now settings pingWhenInactive = some t' ∧
      t'.resetFlag = false ∧ t'.deadline = t.deadline ∧ t'.probeCount = t.probeCount ∧
      t'.state = .probe ∧ t'.nextPing ≤ now := by
    rcases hdue with h | h
    · refine ⟨{ t with state := .probe, nextPing := now }, ?_, hr, rfl, rfl, rfl,
        UInt64.le_refl now⟩
      simp only [PingTimer.poll, hr, hp, Bool.false_eq_true, if_false, if_pos h]
    · refine ⟨t, ?_, hr, rfl, rfl, h.1, h.2⟩
      simp [PingTimer.poll, hr, hp, h.1]
  obtain ⟨t', hpoll, hr', hdeadline, hcount, hstate, hnext⟩ := hstart
  simp only [r, PingTimer.update, hpoll, PingTimer.schedule, if_pos hnext, if_pos hstate]
  rw [hcount]
  by_cases hlimit : settings.probeCount ≤ t.probeCount
  · rw [if_pos (by omega : settings.probeCount < t.probeCount + 1), if_pos hlimit]
    split <;> exact ⟨hr', hdeadline, rfl, rfl, rfl⟩
  · rw [if_neg (by omega : ¬ settings.probeCount < t.probeCount + 1), if_neg hlimit]
    exact ⟨hr', hdeadline, rfl, hstate, rfl, hstate⟩

/-! ## The count of a silence -/

/-- What the record says about a timer that has heard something. -/
structure Counting (settings : AooPingSettings) (last : TimeTag) (w : Watch) : Prop where
  deadline : w.timer.deadline = w.heard + TimeTag.fromSeconds settings.probeTime
  heard_le : w.heard ≤ last
  carried_nonneg : 0 ≤ w.carried
  count : w.timer.state ≠ .inactive → w.timer.probeCount = w.carried + w.probes
  budget : w.timer.state ≠ .inactive → 0 < w.probes → w.timer.probeCount ≤ settings.probeCount
  overdue : w.timer.state = .probe → w.timer.deadline ≤ last

/-- The invariant of a run; `last` is the time of the last update. -/
structure Inv (settings : AooPingSettings) (last : TimeTag) (w : Watch) : Prop where
  nonneg : 0 ≤ w.timer.probeCount
  counting : w.timer.resetFlag = false → Counting settings last w

theorem inv_init (state : PingState) : Inv settings 0 (init state) :=
  ⟨Int.le_refl 0, nofun⟩

/-- `reset` and `pong` only set a flag. -/
theorem Inv.reset (h : Inv settings last w) : Inv settings last (w.step settings .reset) :=
  ⟨h.nonneg, nofun⟩

theorem Inv.pong (h : Inv settings last w) : Inv settings last (w.step settings .pong) := by
  refine ⟨h.nonneg, fun hr => ?_⟩
  have hc := h.counting hr
  exact ⟨hc.deadline, hc.heard_le, hc.carried_nonneg, hc.count, hc.budget, hc.overdue⟩

/-- After an update that has heard something the count starts. -/
theorem Inv.heard (h : Inv settings last w) (pingWhenInactive : Bool)
    (hflag : w.timer.resetFlag ∨ w.timer.pongFlag) :
    Inv settings now (w.step settings (.update now pingWhenInactive)) := by
  obtain ⟨-, hstate, hdeadline, hcount⟩ := @update_heard settings _ now
    pingWhenInactive hflag
  have hnonneg : 0 ≤ (w.timer.update now settings pingWhenInactive).1.probeCount := by
    have := h.nonneg
    omega
  rw [step, if_pos hflag]
  refine ⟨hnonneg, fun _ => ⟨hdeadline, UInt64.le_refl now, hnonneg, ?_, ?_, ?_⟩⟩
  · intro _
    exact (Int.add_zero _).symm
  · intro _ h₀
    exact absurd h₀ (Nat.lt_irrefl 0)
  · intro hp
    exact absurd (hstate.symm.trans hp) nofun

/-- A probe ping only becomes due after the deadline. -/
theorem Counting.deadline_le (h : Counting settings last w) (hlast : last ≤ now)
    (hdue : ProbeDue w.timer now) : w.timer.deadline ≤ now := by
  rcases hdue with hping | hprobe
  · exact hping.2
  · exact UInt64.le_trans (h.overdue hprobe.1) hlast

/-- A probe ping only becomes due outside of the inactive state. -/
theorem ProbeDue.ne_inactive (hdue : ProbeDue t now) : t.state ≠ .inactive := by
  intro h
  rcases hdue with hping | hprobe
  · exact absurd (hping.1.symm.trans h) nofun
  · exact absurd (hprobe.1.symm.trans h) nofun

/-- An update keeps the count. -/
theorem Inv.update (h : Inv settings last w) (hlast : last ≤ now) (pingWhenInactive : Bool) :
    Inv settings now (w.step settings (.update now pingWhenInactive)) := by
  by_cases hflag : w.timer.resetFlag ∨ w.timer.pongFlag
  · exact h.heard pingWhenInactive hflag
  have hr : w.timer.resetFlag = false := Bool.eq_false_iff.mpr fun he => hflag (Or.inl he)
  have hp : w.timer.pongFlag = false := Bool.eq_false_iff.mpr fun he => hflag (Or.inr he)
  have hc := h.counting hr
  have hheard : w.heard ≤ now := UInt64.le_trans hc.heard_le hlast
  have hnonneg := h.nonneg
  rw [step, if_neg hflag]
  by_cases hdue : ProbeDue w.timer now
  · obtain ⟨-, hdeadline, hcount, hif⟩ := @update_due settings _ _
      pingWhenInactive hr hp hdue
    have hbefore := hc.count hdue.ne_inactive
    by_cases hlimit : settings.probeCount ≤ w.timer.probeCount
    · rw [if_pos hlimit] at hif
      have hnot : ¬ ((w.timer.update now settings pingWhenInactive).2.ping = true ∧
          (w.timer.update now settings pingWhenInactive).2.state = .probe) := by
        rw [hif.2]
        exact fun he => absurd he.2 nofun
      rw [if_neg hnot]
      refine ⟨by show 0 ≤ _; rw [hcount]; omega, fun _ => ?_⟩
      refine ⟨hdeadline.trans hc.deadline, hheard, hc.carried_nonneg, ?_, ?_, ?_⟩
      · intro hne
        exact absurd hif.1 hne
      · intro hne
        exact absurd hif.1 hne
      · intro he
        exact absurd (hif.1.symm.trans he) nofun
    · rw [if_neg hlimit] at hif
      rw [if_pos hif.2]
      refine ⟨by show 0 ≤ _; rw [hcount]; omega, fun _ => ?_⟩
      refine ⟨hdeadline.trans hc.deadline, hheard, hc.carried_nonneg, ?_, ?_, ?_⟩
      · intro _
        show (w.timer.update now settings pingWhenInactive).1.probeCount = _
        rw [hcount, hbefore, Int.add_assoc]
        rfl
      · intro _ _
        show (w.timer.update now settings pingWhenInactive).1.probeCount ≤ _
        rw [hcount]
        omega
      · intro _
        show (w.timer.update now settings pingWhenInactive).1.deadline ≤ now
        rw [hdeadline]
        exact hc.deadline_le hlast hdue
  · obtain ⟨-, hstate, hdeadline, hcount, hnot⟩ := @update_idle settings _ _
      pingWhenInactive hr hp hdue
    rw [if_neg hnot]
    refine ⟨by show 0 ≤ _; rw [hcount]; exact hnonneg, fun _ => ?_⟩
    refine ⟨hdeadline.trans hc.deadline, hheard, hc.carried_nonneg, ?_, ?_, ?_⟩
    · intro hne
      exact hcount.trans (hc.count fun he => hne (hstate.trans he))
    · intro hne hpos
      exact hcount.trans_le (hc.budget (fun he => hne (hstate.trans he)) hpos)
    · intro he
      show (w.timer.update now settings pingWhenInactive).1.deadline ≤ now
      rw [hdeadline]
      exact UInt64.le_trans (hc.overdue (hstate.symm.trans he)) hlast

/-- One call keeps the invariant. -/
theorem Inv.step (h : Inv settings last w) (a : TimerAction)
    (hlast : ∀ now ∈ a.time?, last ≤ now) :
    Inv settings (a.time?.getD last) (w.step settings a) := by
  cases a with
  | update now pingWhenInactive => exact h.update (hlast now rfl) pingWhenInactive
  | pong => exact h.pong
  | reset => exact h.reset

/-! ## Giving up -/

/-- The timer gives the remote end up exactly when the probe pings are used up. -/
theorem gives_up_iff (pingWhenInactive : Bool) :
    (w.timer.state ≠ .inactive ∧
        (w.step settings (.update now pingWhenInactive)).timer.state = .inactive) ↔
      UsedUp settings w.timer now := by
  have htimer : (w.step settings (.update now pingWhenInactive)).timer =
      (w.timer.update now settings pingWhenInactive).1 := by
    rw [Watch.step]
    split
    · rfl
    · split <;> rfl
  rw [htimer]
  by_cases hflag : w.timer.resetFlag ∨ w.timer.pongFlag
  · obtain ⟨-, hstate, -, -⟩ := @update_heard settings _ now
      pingWhenInactive hflag
    refine iff_of_false (fun h => absurd (hstate.symm.trans h.2) nofun) fun h => ?_
    rcases hflag with hr | hp
    · exact absurd (hr.symm.trans h.1) nofun
    · exact absurd (hp.symm.trans h.2.1) nofun
  have hr : w.timer.resetFlag = false := Bool.eq_false_iff.mpr fun he => hflag (Or.inl he)
  have hp : w.timer.pongFlag = false := Bool.eq_false_iff.mpr fun he => hflag (Or.inr he)
  by_cases hdue : ProbeDue w.timer now
  · obtain ⟨-, -, -, hif⟩ := @update_due settings _ _ pingWhenInactive hr hp hdue
    by_cases hlimit : settings.probeCount ≤ w.timer.probeCount
    · rw [if_pos hlimit] at hif
      exact iff_of_true ⟨hdue.ne_inactive, hif.1⟩ ⟨hr, hp, hdue, hlimit⟩
    · rw [if_neg hlimit] at hif
      exact iff_of_false (fun h => absurd (hif.1.symm.trans h.2) nofun)
        fun h => hlimit h.2.2.2
  · obtain ⟨-, hstate, -⟩ := @update_idle settings _ _ pingWhenInactive hr hp hdue
    exact iff_of_false (fun h => h.1 (hstate.symm.trans h.2)) fun h => hdue h.2.2.1

/-- When the timer gives up, at least `probeCount` probe pings have been sent if and only if
none was counted before it last heard something. -/
theorem Counting.probes_iff (h : Counting settings last w) (hused : UsedUp settings w.timer now) :
    settings.probeCount ≤ (w.probes : Int) ↔ w.carried = 0 ∨ settings.probeCount ≤ 0 := by
  obtain ⟨-, -, hdue, hlimit⟩ := hused
  have hcount := h.count hdue.ne_inactive
  have hbudget := h.budget hdue.ne_inactive
  have hcarried := h.carried_nonneg
  by_cases hprobes : 0 < w.probes
  · have := hbudget hprobes
    omega
  · omega

/-- **One call** gives up in time if and only if the counter was zero at the start of the
silence and the deadline is really over. -/
theorem Inv.enough_iff (h : Inv settings last w) (a : TimerAction)
    (hlast : ∀ now ∈ a.time?, last ≤ now) :
    Uncarried settings w a ↔ EnoughSilence settings w a := by
  cases a with
  | pong => exact Iff.rfl
  | reset => exact Iff.rfl
  | update now pingWhenInactive =>
    have hle : last ≤ now := hlast now rfl
    show (UsedUp settings w.timer now → _) ↔ (w.timer.state ≠ .inactive → _ = _ → _)
    rw [← and_imp, gives_up_iff]
    refine forall_congr' fun hused => ?_
    have hc := h.counting hused.1
    have hflag : ¬ (w.timer.resetFlag ∨ w.timer.pongFlag) := by
      rw [hused.1, hused.2.1]
      exact fun he => he.elim nofun nofun
    obtain ⟨-, -, -, hif⟩ := @update_due settings _ _ pingWhenInactive hused.1
      hused.2.1 hused.2.2.1
    rw [if_pos hused.2.2.2] at hif
    have hstep : (w.step settings (.update now pingWhenInactive)).heard = w.heard ∧
        (w.step settings (.update now pingWhenInactive)).probes = w.probes := by
      rw [Watch.step, if_neg hflag, hif.2, if_neg (fun he => absurd he.2 nofun)]
      exact ⟨rfl, rfl⟩
    rw [hstep.1, hstep.2, hc.probes_iff hused, and_comm]
    have hdue := hc.deadline_le hle hused.2.2.1
    rw [hc.deadline] at hdue ⊢
    rw [TimeTag.lt_duration_iff _ settings.probeTime_nonneg
      (UInt64.le_trans hc.heard_le hle) hdue]

/-- The same for the rest of a run. -/
theorem Inv.stepsAll_iff (as : List TimerAction) :
    ∀ {w : Watch} {last : TimeTag}, Inv settings last w → Nondecreasing last as →
      (StepsAll (Watch.step settings) (Uncarried settings) w as ↔
        StepsAll (Watch.step settings) (EnoughSilence settings) w as) := by
  induction as with
  | nil =>
    intro w last _ _
    exact Iff.rfl
  | cons a as ih =>
    intro w last h hlast
    exact and_congr (h.enough_iff a hlast.1) (ih (h.step a hlast.1) hlast.2)

/-- **The timer gives up only after enough silence** if and only if, whenever the probe pings
are used up, none was counted before the timer last heard something (or none is
wanted) and the deadline, which did not wrap, is over. -/
theorem inactive_iff :
    ∀ (settings : AooPingSettings) (state : PingState) (as : List TimerAction),
      Nondecreasing 0 as →
        (StepsAll (step settings) (Uncarried settings) (init state) as ↔
          StepsAll (step settings) (EnoughSilence settings) (init state) as) :=
  fun _ state as h => (inv_init state).stepsAll_iff as h

/-! ## A second silence -/

instance (settings : AooPingSettings) (w : Watch) :
    ∀ a, Decidable (EnoughSilence settings w a)
  | .update _ _ => inferInstanceAs (Decidable (_ → _ → _))
  | .pong => .isTrue trivial
  | .reset => .isTrue trivial

instance (t : PingTimer) (now : TimeTag) : Decidable (ProbeDue t now) :=
  inferInstanceAs (Decidable (_ ∨ _))

instance (settings : AooPingSettings) (t : PingTimer) (now : TimeTag) :
    Decidable (UsedUp settings t now) :=
  inferInstanceAs (Decidable (_ ∧ _))

instance (settings : AooPingSettings) (w : Watch) :
    ∀ a, Decidable (Uncarried settings w a)
  | .update _ _ => inferInstanceAs (Decidable (_ → _))
  | .pong => .isTrue trivial
  | .reset => .isTrue trivial

/-- Pings every 5 s, two probe pings at a distance of 1 s after 15 s. -/
def twoProbes : AooPingSettings where
  interval := 5
  probeTime := 15
  probeInterval := 1
  probeCount := 2
  interval_nonneg := by norm_num
  probeTime_nonneg := by norm_num
  probeInterval_nonneg := by norm_num

/-- The remote end never answers. -/
def silentRun : List TimerAction :=
  [.update 0 false, .update (TimeTag.fromSeconds 15) false,
    .update (TimeTag.fromSeconds 16) false, .update (TimeTag.fromSeconds 17) false]

/-- The timer gives up after two probe pings. -/
theorem silent_enough :
    StepsAll (step twoProbes) (EnoughSilence twoProbes) (init .ping) silentRun := by
  apply (inactive_iff twoProbes .ping silentRun ?_).mp
  · decide +kernel
  · simp only [Nondecreasing, silentRun, TimerAction.time?, Option.mem_some_iff, forall_eq',
      Option.getD_some]
    decide +kernel

/-- The remote end answers the first probe ping and is silent again for 16 s. -/
def answeredRun : List TimerAction :=
  [.update 0 false, .update (TimeTag.fromSeconds 15) false, .pong,
    .update (TimeTag.fromSeconds 16) false, .update (TimeTag.fromSeconds 31) false,
    .update (TimeTag.fromSeconds 32) false]

/-- In the second silence the timer gives up after a single probe ping. -/
theorem gives_up_early :
    Nondecreasing 0 answeredRun ∧
      ¬ StepsAll (step twoProbes) (EnoughSilence twoProbes) (init .ping) answeredRun := by
  refine ⟨?_, by decide +kernel⟩
  simp only [Nondecreasing, answeredRun, TimerAction.time?, Option.mem_some_iff, forall_eq',
    Option.not_mem_none, false_implies, implies_true, true_and, Option.getD_some, Option.getD_none]
  decide +kernel

end Watch

end Aoo.Net
