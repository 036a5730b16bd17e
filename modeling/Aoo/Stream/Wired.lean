import Aoo.Stream.Depth

/-!
# The playout depth of a wired stream

A stream with the profile for wired networks is kept at its depth by dropping blocks. While it
buffers, `try_decode_block` gives up an incomplete block in front of `latencyBlocks` complete ones,
and then as many complete blocks as there are too many; the stream becomes active when
exactly `latencyBlocks` complete blocks are in front. In the active state the complete
blocks that are too many are given up before each block.

An incomplete block in the active state is concealed, and so is the lack of a
block. `missingInRow` counts what is concealed in a row, from what the
listener gets (`played`). It never gets to four: the fourth time the buffer is emptied.

**Main result** (`wired_depth`): both, for all contents of the jitter buffer and for all runs.
-/

namespace Aoo.Stream

open Lib

namespace SourceDesc

/-! ## Complete blocks in front -/

/-- Each dropped block takes one off the count of complete blocks. -/
theorem countComplete_drop :
    ∀ (n : Nat) (bs : List ReceivedBlock), n ≤ countComplete bs →
      countComplete (bs.drop n) = countComplete bs - n := by
  intro n
  induction n with
  | zero =>
    intro bs _
    rfl
  | succ n ih =>
    intro bs h
    cases bs with
    | nil => exact absurd h (Nat.not_succ_le_zero n)
    | cons b bs =>
      rw [countComplete] at h ⊢
      split at h
      next hb =>
        rw [if_pos hb, List.drop_succ_cons, ih bs (Nat.le_of_succ_le_succ h),
          Nat.add_sub_add_right]
      next => exact absurd h (Nat.not_succ_le_zero n)

/-- The blocks that are counted are complete. -/
theorem complete_of_lt_countComplete :
    ∀ (bs : List ReceivedBlock) (i : Nat) (hi : i < bs.length), i < countComplete bs →
      bs[i].complete = true := by
  intro bs
  induction bs with
  | nil =>
    intro i hi _
    exact absurd hi (Nat.not_lt_zero i)
  | cons b bs ih =>
    intro i hi h
    rw [countComplete] at h
    split at h
    next hb =>
      cases i with
      | zero => exact hb
      | succ i => exact ih i (Nat.lt_of_succ_lt_succ hi) (Nat.lt_of_succ_lt_succ h)
    next => exact absurd h (Nat.not_lt_zero i)

variable {s t : SourceDesc} {bs fs : List ReceivedBlock}

/-! ## Blocks are given up -/

/-- What giving up blocks leaves alone. -/
structure SameStream (s t : SourceDesc) : Prop where
  lowLatency : t.lowLatency = s.lowLatency
  latencyBlocks : t.latencyBlocks = s.latencyBlocks
  streamState : t.streamState = s.streamState
  missing : t.consecutiveMissingBlocks = s.consecutiveMissingBlocks

theorem SameStream.refl (s : SourceDesc) : s.SameStream s := ⟨rfl, rfl, rfl, rfl⟩

/-- What is the same over two steps. -/
theorem SameStream.trans {u : SourceDesc} (h : s.SameStream t) (h' : t.SameStream u) :
    s.SameStream u :=
  ⟨h'.lowLatency.trans h.lowLatency, h'.latencyBlocks.trans h.latencyBlocks,
    h'.streamState.trans h.streamState, h'.missing.trans h.missing⟩

/-- Whether a stream is wired is in its configuration. -/
theorem SameStream.wired (h : s.SameStream t) : t.wired = s.wired := by
  rw [SourceDesc.wired, SourceDesc.wired, h.lowLatency]

/-- An expired block changes nothing of the stream. -/
theorem sameStream_expire (s : SourceDesc) : s.SameStream s.expire := ⟨rfl, rfl, rfl, rfl⟩

/-- Neither do trimmed blocks. -/
theorem sameStream_trim (n : Nat) : ∀ s : SourceDesc, s.SameStream (s.trim n) := by
  induction n with
  | zero =>
    intro s
    exact .refl s
  | succ n ih =>
    intro s
    exact s.sameStream_expire.trans (ih s.expire)

/-- Nor blocks that were overtaken. -/
theorem sameStream_discardStale (fuel : Nat) :
    ∀ s : SourceDesc, s.SameStream (s.discardStale fuel) := by
  induction fuel with
  | zero =>
    intro s
    exact .refl s
  | succ fuel ih =>
    intro s
    rw [discardStale]
    split
    · exact .refl s
    · split
      · exact .refl s
      · exact s.sameStream_expire.trans (ih s.expire)

/-- `complete_blocks` counts the complete blocks at the front. -/
theorem completeBlocks_eq (h : s.jitterBuffer.Ring bs fs) :
    s.completeBlocks = countComplete bs := by
  rw [completeBlocks, h.iterate_eq]

/-- Giving up blocks drops them from the front. -/
theorem ring_trim (n : Nat) :
    ∀ {s : SourceDesc} {bs fs : List ReceivedBlock}, s.jitterBuffer.Ring bs fs → n ≤ bs.length →
      ∃ fs', (s.trim n).jitterBuffer.Ring (bs.drop n) fs' := by
  induction n with
  | zero =>
    intro s bs fs h _
    exact ⟨fs, h⟩
  | succ n ih =>
    intro s bs fs h hn
    cases bs with
    | nil => exact absurd hn (Nat.not_succ_le_zero n)
    | cons b bs => exact ih (s := s.expire) h.pop (Nat.le_of_succ_le_succ hn)

/-- The loop over stale blocks drops incomplete ones with enough complete blocks behind
each of them. -/
theorem ring_discardStale (fuel : Nat) :
    ∀ {s : SourceDesc} {bs fs : List ReceivedBlock}, s.jitterBuffer.Ring bs fs →
      ∃ k fs', (s.discardStale fuel).jitterBuffer.Ring (bs.drop k) fs' ∧
        ∀ j, j < k → s.latencyBlocks ≤ countComplete (bs.drop (j + 1)) := by
  induction fuel with
  | zero =>
    intro s bs fs h
    exact ⟨0, fs, h, fun j hj => absurd hj (Nat.not_lt_zero j)⟩
  | succ fuel ih =>
    intro s bs fs h
    have hstay : ∃ k fs', s.jitterBuffer.Ring (bs.drop k) fs' ∧
        ∀ j, j < k → s.latencyBlocks ≤ countComplete (bs.drop (j + 1)) :=
      ⟨0, fs, h, fun j hj => absurd hj (Nat.not_lt_zero j)⟩
    rw [discardStale]
    split
    · exact hstay
    next hfront =>
      split
      · exact hstay
      next hfollow =>
        rw [h.iterate_eq] at hfollow
        cases bs with
        | nil =>
          have hempty : s.jitterBuffer.empty = true := by
            rw [JitterBuffer.empty, h.size]
            rfl
          rw [hempty] at hfront
          exact absurd rfl hfront
        | cons b bs =>
          obtain ⟨k, fs', hring, hdrop⟩ := ih (s := s.expire) h.pop
          refine ⟨k + 1, fs', hring, ?_⟩
          intro j hj
          cases j with
          | zero => exact Nat.le_of_not_lt hfollow
          | succ j => exact hdrop j (Nat.lt_of_succ_lt_succ hj)

/-! ## One call of `try_decode_block` -/

/-- The complete blocks that are too many are given up. -/
def trimBacklog (s : SourceDesc) : SourceDesc := s.trim (s.completeBlocks - s.latencyBlocks)

/-- Of the complete blocks only as many as the latency stay. -/
theorem ring_trimBacklog (h : s.jitterBuffer.Ring bs fs) :
    ∃ fs', s.trimBacklog.jitterBuffer.Ring (bs.drop (countComplete bs - s.latencyBlocks)) fs' := by
  rw [trimBacklog, completeBlocks_eq h]
  exact ring_trim _ h (Nat.le_trans (Nat.sub_le ..) (countComplete_le bs))

/-- What is left of the complete blocks in front. -/
theorem countComplete_trimmed (bs : List ReceivedBlock) (n : Nat) :
    countComplete (bs.drop (countComplete bs - n)) = min (countComplete bs) n := by
  rw [countComplete_drop _ _ (Nat.sub_le ..)]
  omega

/-- Only a low-latency stream can be wired. -/
theorem lowLatency_of_wired (hw : s.wired = true) : s.lowLatency.isSome = true := by
  rw [wired] at hw
  cases hc : s.lowLatency with
  | none =>
    rw [hc] at hw
    exact absurd hw nofun
  | some c => rfl

/-- The buffering gives up blocks, and then it ends the call or lets the stream become active. -/
theorem buffer_cases (s : SourceDesc) (i : DecodeInput) :
    ∃ v, s.SameStream v ∧ ((∃ r, s.buffer i = (v, some r)) ∨
      s.buffer i = ({ v with streamState := .active }, none)) := by
  unfold buffer
  split
  · exact ⟨s, .refl s, Or.inl ⟨_, rfl⟩⟩
  · have hstale : s.SameStream
        (if s.wired = true then s.discardStale s.jitterBuffer.size else s) := by
      split
      · exact s.sameStream_discardStale _
      · exact .refl s
    dsimp only
    revert hstale
    generalize (if s.wired = true then s.discardStale s.jitterBuffer.size else s) = u
    intro hstale
    generalize (if u.lowLatency.isSome = true then u.completeBlocks else 0) = complete
    generalize (if u.wired = true then complete - u.latencyBlocks else 0) = n
    refine ⟨u.trim n, hstale.trans (sameStream_trim n u), ?_⟩
    split
    · split
      · exact Or.inl ⟨_, rfl⟩
      · exact Or.inl ⟨_, rfl⟩
    · exact Or.inr rfl

/-- The buffering of a wired stream. -/
theorem buffer_eq_of_wired (hw : s.wired = true) (hs : s.stopped = false) (i : DecodeInput) :
    s.buffer i =
      let u := s.discardStale s.jitterBuffer.size
      let v := u.trimBacklog
      if i.early || decide (v.jitterBuffer.size < v.latencyBlocks) ||
          decide (u.completeBlocks - (u.completeBlocks - u.latencyBlocks) < v.latencyBlocks) then
        (v, some i.written)
      else ({ v with streamState := .active }, none) := by
  have hdiscard := s.sameStream_discardStale s.jitterBuffer.size
  have hlow := lowLatency_of_wired (hdiscard.wired.trans hw)
  have hlow' : (s.discardStale s.jitterBuffer.size).trimBacklog.lowLatency.isSome = true := by
    rw [trimBacklog, (sameStream_trim _ _).lowLatency]
    exact hlow
  have hsome : (s.discardStale s.jitterBuffer.size).trimBacklog.lowLatency.isNone = false := by
    rw [← Option.not_isSome, hlow']
    rfl
  unfold buffer
  rw [if_neg (by rw [hs]; exact nofun)]
  simp only [hw, if_true, hdiscard.wired, hlow]
  rw [← trimBacklog]
  simp only [hlow', hsome, Bool.true_and, Bool.false_and, Bool.false_eq_true, if_false]

/-- What the buffering of a wired stream does to the buffer: it drops blocks from the front, an
incomplete one only in front of enough complete ones, and lets the stream become active only at
its depth. -/
theorem buffer_wired (hw : s.wired = true) (h : s.jitterBuffer.Ring bs fs) (i : DecodeInput) :
    ∃ k fs', (s.buffer i).1.jitterBuffer.Ring (bs.drop k) fs' ∧
      (∀ (j : Nat) (hj : j < bs.length), j < k → bs[j].complete = false →
        s.latencyBlocks ≤ countComplete (bs.drop (j + 1))) ∧
      ((s.buffer i).2 = none → countComplete (bs.drop k) = s.latencyBlocks) := by
  by_cases hs : s.stopped = false
  · obtain ⟨k, fs₁, hring₁, hstale⟩ := ring_discardStale s.jitterBuffer.size h
    have hdiscard := s.sameStream_discardStale s.jitterBuffer.size
    rw [buffer_eq_of_wired hw hs]
    revert hring₁ hdiscard
    generalize s.discardStale s.jitterBuffer.size = u
    intro hring₁ hdiscard
    obtain ⟨fs₂, hring₂⟩ := ring_trimBacklog hring₁
    have htrim : u.trimBacklog.latencyBlocks = s.latencyBlocks :=
      (sameStream_trim _ u).latencyBlocks.trans hdiscard.latencyBlocks
    have hcount := completeBlocks_eq hring₁
    rw [List.drop_drop, hdiscard.latencyBlocks] at hring₂
    -- a block that is dropped later is complete
    have hdropped : ∀ (j : Nat) (hj : j < bs.length),
        j < k + (countComplete (bs.drop k) - s.latencyBlocks) → bs[j].complete = false →
        s.latencyBlocks ≤ countComplete (bs.drop (j + 1)) := by
      intro j hj hlt hincomplete
      by_cases hjk : j < k
      · exact hstale j hjk
      · have hcomplete := complete_of_lt_countComplete (bs.drop k) (j - k)
          (by rw [List.length_drop]; omega) (by omega)
        rw [List.getElem_drop] at hcomplete
        simp only [Nat.add_sub_cancel' (Nat.le_of_not_lt hjk), hincomplete] at hcomplete
        exact absurd hcomplete nofun
    dsimp only
    split
    next => exact ⟨_, fs₂, hring₂, hdropped, nofun⟩
    next hdone =>
      refine ⟨_, fs₂, hring₂, hdropped, ?_⟩
      intro _
      rw [hcount, hdiscard.latencyBlocks, htrim] at hdone
      simp only [Bool.or_eq_true, decide_eq_true_eq, not_or, Nat.not_lt] at hdone
      rw [← List.drop_drop, countComplete_trimmed]
      omega
  · have hstopped : s.buffer i = (s, some false) := by
      unfold buffer
      rw [if_pos (by rwa [Bool.not_eq_false] at hs)]
    rw [hstopped]
    exact ⟨0, fs, h, fun j _ hj => absurd hj (Nat.not_lt_zero j), nofun⟩

/-- The stream behind the buffering, if the call gets that far. -/
def playing (s : SourceDesc) (i : DecodeInput) : Option SourceDesc :=
  if (s.retarget i.target).streamState = .buffering then
    match (s.retarget i.target).buffer i with
    | (_, some _) => none
    | (t, none) => some t
  else some (s.retarget i.target)

/-- The stream in which the first block is taken. -/
def trimmed (s : SourceDesc) : SourceDesc :=
  if s.wired ∧ s.streamState = .active then s.trimBacklog else s

theorem decode_eq (s : SourceDesc) (i : DecodeInput) :
    s.decode i =
      if s.trimmed.jitterBuffer.empty then s.trimmed.decodeMissing i
      else s.trimmed.decodeFront i := rfl

/-- A call gets behind the buffering, or ends with it. -/
theorem tryDecodeBlock_cases (s : SourceDesc) (i : DecodeInput) :
    (∃ t, s.playing i = some t ∧ s.tryDecodeBlock i = t.decode i) ∨
      (s.playing i = none ∧ (s.tryDecodeBlock i).1 = ((s.retarget i.target).buffer i).1) := by
  unfold playing tryDecodeBlock
  dsimp only
  split
  · cases hbuffer : (s.retarget i.target).buffer i with
    | mk t r =>
      cases r with
      | none => exact Or.inl ⟨t, rfl, rfl⟩
      | some r => exact Or.inr ⟨rfl, rfl⟩
  · exact Or.inl ⟨_, rfl, rfl⟩

/-- A new target leaves the profile as it is. -/
theorem retarget_wired (s : SourceDesc) (target : UInt32) :
    (s.retarget target).wired = s.wired := by
  unfold retarget
  split
  next => rfl
  next c hc =>
    split
    · rw [wired, wired, hc]
      rfl
    · rfl

/-- What one call does to the blocks `bs` of a wired stream. -/
structure WiredCall (s : SourceDesc) (i : DecodeInput) (bs : List ReceivedBlock) : Prop where
  /-- While buffering, only enough complete blocks make it give up an incomplete one. -/
  stale : (s.retarget i.target).streamState = .buffering →
    ∃ k, ((s.retarget i.target).buffer i).1.jitterBuffer.blocks = bs.drop k ∧
      ∀ (j : Nat) (hj : j < bs.length), j < k → bs[j].complete = false →
        (s.retarget i.target).latencyBlocks ≤ countComplete (bs.drop (j + 1))
  /-- It stops buffering at its depth. -/
  leaves : (s.retarget i.target).streamState = .buffering → ∀ t, s.playing i = some t →
    t.streamState = .active ∧ countComplete t.jitterBuffer.blocks = t.latencyBlocks
  /-- It plays at its depth. -/
  taken : ∀ t, s.playing i = some t → t.streamState = .active →
    countComplete t.trimmed.jitterBuffer.blocks ≤ t.trimmed.latencyBlocks

/-- An active wired stream takes blocks at its depth. -/
theorem trimmed_le (hw : s.wired = true) (ha : s.streamState = .active)
    (h : s.jitterBuffer.Ring bs fs) :
    countComplete s.trimmed.jitterBuffer.blocks ≤ s.trimmed.latencyBlocks := by
  obtain ⟨fs', hring⟩ := ring_trimBacklog h
  rw [trimmed, if_pos ⟨hw, ha⟩, hring.blocks_eq, countComplete_trimmed, trimBacklog,
    (sameStream_trim _ _).latencyBlocks]
  exact Nat.min_le_right ..

/-- What is behind the buffering is the stream itself, or a stream that has just become
active. -/
theorem playing_cases {i : DecodeInput} (h : s.playing i = some t) :
    ((s.retarget i.target).streamState ≠ .buffering ∧ t = s.retarget i.target) ∨
      ((s.retarget i.target).streamState = .buffering ∧
        (s.retarget i.target).buffer i = (t, none) ∧
        ∃ v, (s.retarget i.target).SameStream v ∧ t = { v with streamState := .active }) := by
  rw [playing] at h
  split at h
  next hbuffering =>
    obtain ⟨v, hv, ⟨r, hr⟩ | hnone⟩ := (s.retarget i.target).buffer_cases i
    · rw [hr] at h
      cases h
    · rw [hnone] at h
      obtain rfl := Option.some.inj h
      exact Or.inr ⟨hbuffering, hnone, v, hv, rfl⟩
  next hne => exact Or.inl ⟨hne, (Option.some.inj h).symm⟩

/-- **One call** keeps a wired stream at its depth. -/
theorem wiredCall (hw : s.wired = true) (h : s.jitterBuffer.Ring bs fs) (i : DecodeInput) :
    s.WiredCall i bs := by
  have hw' : (s.retarget i.target).wired = true := (s.retarget_wired i.target).trans hw
  have h' : (s.retarget i.target).jitterBuffer.Ring bs fs := by
    rw [(s.retarget_frame i.target).1]
    exact h
  obtain ⟨k, fs', hring, hstale, hleaves⟩ := buffer_wired hw' h' i
  refine ⟨?_, ?_, ?_⟩
  · intro _
    exact ⟨k, hring.blocks_eq, hstale⟩
  · intro hbuffering t ht
    rcases playing_cases ht with ⟨hne, -⟩ | ⟨-, hbuffer, v, hv, rfl⟩
    · exact absurd hbuffering hne
    · rw [hbuffer] at hring hleaves
      refine ⟨rfl, ?_⟩
      rw [hring.blocks_eq, hleaves rfl]
      exact hv.latencyBlocks.symm
  · intro t ht hactive
    rcases playing_cases ht with ⟨-, rfl⟩ | ⟨-, hbuffer, v, hv, rfl⟩
    · exact trimmed_le hw' hactive h'
    · rw [hbuffer] at hring
      exact trimmed_le (hv.wired.trans hw') rfl hring

/-! ## Missing blocks -/

/-- What the listener gets of a low-latency stream. -/
inductive Played
  | nothing
  | block
  | concealment
  deriving DecidableEq, Repr

/-- What a call of `try_decode_block` writes: a complete block, or something in place of one. -/
def played (s : SourceDesc) (i : DecodeInput) : Played :=
  match s.playing i with
  | none => .nothing
  | some t =>
    if t.trimmed.lowLatency.isNone || !i.written then .nothing
    else if t.trimmed.jitterBuffer.empty then
      if t.trimmed.streamState = .active then .concealment else .nothing
    else if t.trimmed.jitterBuffer.front.complete then .block
    else .concealment

/-- How many missing blocks have been concealed in a row, given that it were `n` before the
action. The fourth one begins a new count, and so does a new stream. -/
def missingInRow (s : SourceDesc) (n : Nat) : SinkAction → Nat
  | .handleStart a => if a.streamId = s.streamId then n else 0
  | .tryDecodeBlock i =>
    if s.decoder.isSome then
      match s.played i with
      | .nothing => n
      | .block => 0
      | .concealment => if n = 3 then 0 else n + 1
    else n
  | _ => n

/-- A run, with the number of blocks that have been concealed in a row. -/
def watch (p : SourceDesc × Nat) (a : SinkAction) : SourceDesc × Nat :=
  (p.1.step a, missingInRow p.1 p.2 a)

/-- The effect of a call on the count `n` of missing blocks, in a stream that is not buffering. -/
structure Counts (n : Nat) (t : SourceDesc) (p : Played) : Prop where
  nothing : p = .nothing → t.consecutiveMissingBlocks = n
  block : p = .block → t.consecutiveMissingBlocks = 0
  /-- Up to three missing blocks are counted. -/
  concealment : p = .concealment → n < 3 →
    t.consecutiveMissingBlocks = n + 1 ∧ t.streamState ≠ .buffering
  /-- The fourth empties the buffer. -/
  fourth : p = .concealment → n = 3 →
    t.consecutiveMissingBlocks = 0 ∧ t.streamState = .buffering ∧ t.jitterBuffer.size = 0

/-- Before a block is decoded, only the buffer has changed. -/
theorem sameStream_trimmed (s : SourceDesc) : s.SameStream s.trimmed := by
  unfold trimmed
  split
  · exact sameStream_trim _ s
  · exact .refl s

/-- A missing block is counted; the fourth one makes the stream buffer again. -/
theorem reacquire_countMissing (s : SourceDesc) :
    (s.consecutiveMissingBlocks < 3 → s.countMissing.reacquire = s.countMissing) ∧
      (s.consecutiveMissingBlocks = 3 →
        s.countMissing.reacquire.consecutiveMissingBlocks = 0 ∧
        s.countMissing.reacquire.streamState = .buffering ∧
        s.countMissing.reacquire.jitterBuffer.size = 0) := by
  have hcount : s.countMissing.consecutiveMissingBlocks = s.consecutiveMissingBlocks + 1 := rfl
  constructor
  · intro h
    rw [reacquire, if_neg (by omega)]
  · intro h
    rw [reacquire, if_pos (by omega)]
    exact ⟨rfl, rfl, rfl⟩

/-- An empty buffer gives a concealment to an active stream. -/
theorem decodeMissing_counts (s : SourceDesc) (i : DecodeInput) :
    Counts s.consecutiveMissingBlocks (s.decodeMissing i).1
      (if s.lowLatency.isNone || !i.written then .nothing
        else if s.streamState = .active then .concealment else .nothing) := by
  unfold decodeMissing
  by_cases hplay : s.lowLatency.isSome ∧ s.streamState = .active ∧ i.written = true
  · obtain ⟨hlow, hactive, hwritten⟩ := hplay
    have hsome : s.lowLatency.isNone = false := by
      rw [← Option.not_isSome, hlow]
      rfl
    rw [if_pos ⟨hlow, hactive, hwritten⟩, if_neg (by simp [hsome, hwritten]), if_pos hactive]
    obtain ⟨hfew, hfour⟩ := reacquire_countMissing { s with
      jitterBuffer := s.jitterBuffer.advanceMissing
      stats := { s.stats with dropped := s.stats.dropped + 1 } }
    refine ⟨nofun, nofun, ?_, fun _ => hfour⟩
    intro _ hlt
    rw [hfew hlt]
    refine ⟨rfl, ?_⟩
    show s.streamState ≠ .buffering
    rw [hactive]
    exact nofun
  · rw [if_neg hplay]
    have hnothing : (if s.lowLatency.isNone || !i.written then Played.nothing
        else if s.streamState = .active then .concealment else .nothing) = .nothing := by
      split
      · rfl
      next hlow =>
        split
        next hactive =>
          simp only [Bool.or_eq_true, Option.isNone_iff_eq_none, Bool.not_eq_true', not_or,
            Bool.not_eq_false] at hlow
          exact absurd ⟨Option.isSome_iff_ne_none.mpr hlow.1, hactive, hlow.2⟩ hplay
        · rfl
    rw [hnothing]
    exact ⟨fun _ => rfl, nofun, nofun, nofun⟩

/-- The front block is read without changes to the stream. -/
theorem readFront_sameStream (s : SourceDesc) (b : ReceivedBlock) :
    s.SameStream (s.readFront b) := by
  unfold readFront
  split
  · dsimp only
    split
    · exact ⟨rfl, rfl, rfl, rfl⟩
    · exact ⟨rfl, rfl, rfl, rfl⟩
  · exact ⟨rfl, rfl, rfl, rfl⟩

/-- The front block is played if it is complete, and concealed otherwise. -/
theorem decodeFront_counts {s : SourceDesc} (hs : s.streamState ≠ .buffering) (i : DecodeInput) :
    Counts s.consecutiveMissingBlocks (s.decodeFront i).1
      (if s.lowLatency.isNone || !i.written then .nothing
        else if s.jitterBuffer.front.complete then .block else .concealment) := by
  have hread := s.readFront_sameStream s.jitterBuffer.front
  unfold decodeFront
  dsimp only
  revert hread
  generalize s.readFront s.jitterBuffer.front = t
  intro hread
  rw [hread.lowLatency]
  by_cases hwritten : (!i.written) = true
  · rw [if_pos hwritten, if_pos (by rw [hwritten, Bool.or_true])]
    exact ⟨fun _ => hread.missing, nofun, nofun, nofun⟩
  by_cases hlow : s.lowLatency.isNone = true
  · rw [if_neg hwritten, if_pos hlow, if_pos (by rw [hlow, Bool.true_or])]
    exact ⟨fun _ => hread.missing, nofun, nofun, nofun⟩
  have hplay : ¬ (s.lowLatency.isNone || !i.written) = true := by
    rw [Bool.or_eq_true]
    exact not_or.mpr ⟨hlow, hwritten⟩
  rw [if_neg hwritten, if_neg hlow, if_neg hplay]
  by_cases hcomplete : s.jitterBuffer.front.complete = true
  · rw [if_pos hcomplete, if_pos hcomplete]
    exact ⟨nofun, fun _ => rfl, nofun, nofun⟩
  rw [if_neg hcomplete, if_neg hcomplete]
  have hcount : t.countMissing.consecutiveMissingBlocks = s.consecutiveMissingBlocks + 1 :=
    congrArg (· + 1) hread.missing
  refine ⟨nofun, nofun, ?_, ?_⟩
  · intro _ hlt
    rw [if_neg (by omega)]
    refine ⟨hcount, ?_⟩
    show t.streamState ≠ .buffering
    rw [hread.streamState]
    exact hs
  · intro _ hthree
    rw [if_pos (by omega)]
    exact (t.reacquire_countMissing).2 (hread.missing.trans hthree)

/-- A new target is no missing block. -/
theorem retarget_missing (s : SourceDesc) (target : UInt32) :
    (s.retarget target).consecutiveMissingBlocks = s.consecutiveMissingBlocks := by
  unfold retarget
  split
  · rfl
  · split
    · rfl
    · rfl

/-- Blocks are counted as missing behind the buffering only. -/
theorem playing_sameCount {i : DecodeInput} (h : s.playing i = some t) :
    t.consecutiveMissingBlocks = s.consecutiveMissingBlocks ∧ t.streamState ≠ .buffering := by
  rcases playing_cases h with ⟨hne, rfl⟩ | ⟨-, -, v, hv, rfl⟩
  · exact ⟨s.retarget_missing i.target, hne⟩
  · exact ⟨hv.missing.trans (s.retarget_missing i.target), nofun⟩

/-- **One call** counts what it conceals, and empties the buffer the fourth time. -/
theorem tryDecodeBlock_counts (s : SourceDesc) (i : DecodeInput) :
    Counts s.consecutiveMissingBlocks (s.tryDecodeBlock i).1 (s.played i) := by
  unfold played
  rcases s.tryDecodeBlock_cases i with ⟨t, ht, hdecode⟩ | ⟨hnone, hbuffer⟩
  · obtain ⟨hmissing, hstate⟩ := playing_sameCount ht
    have hsame := t.sameStream_trimmed
    have hcount : t.trimmed.consecutiveMissingBlocks = s.consecutiveMissingBlocks :=
      hsame.missing.trans hmissing
    have hstate' : t.trimmed.streamState ≠ .buffering := by
      rw [hsame.streamState]
      exact hstate
    rw [ht, hdecode, decode_eq, ← hcount]
    dsimp only
    by_cases hempty : t.trimmed.jitterBuffer.empty = true
    · rw [if_pos hempty, if_pos hempty]
      exact t.trimmed.decodeMissing_counts i
    · rw [if_neg hempty, if_neg hempty]
      exact decodeFront_counts hstate' i
  · obtain ⟨v, hv, ⟨r, hr⟩ | hr⟩ := (s.retarget i.target).buffer_cases i
    · rw [hnone, hbuffer, hr]
      exact ⟨fun _ => hv.missing.trans (s.retarget_missing i.target), nofun, nofun, nofun⟩
    · rw [hnone, hbuffer, hr]
      exact ⟨fun _ => hv.missing.trans (s.retarget_missing i.target), nofun, nofun, nofun⟩

/-! ## Runs -/

/-- Packets do not touch the count. -/
theorem missing_addPacket (s : SourceDesc) (d : NetPacket) :
    (s.addPacket d).1.consecutiveMissingBlocks = s.consecutiveMissingBlocks := by
  unfold addPacket
  split
  · rfl
  · split
    · rfl
    · split
      · rfl
      next t ht =>
        have hwrap := (beside_checkWrap ht).missing
        split
        · obtain ⟨streamState, hbeside⟩ := t.beside_addBlock d
          exact hbeside.missing.trans hwrap
        next slot _ =>
          obtain ⟨stats, hbeside⟩ := t.beside_updateBlock d slot
          exact hbeside.missing.trans hwrap

/-- Neither does `update`. -/
theorem missing_update (s : SourceDesc) (u : UpdateArgs) :
    (s.update u).consecutiveMissingBlocks = s.consecutiveMissingBlocks := by
  unfold update
  split
  · rfl
  · rfl

/-- A new stream starts to count again. -/
theorem missing_handleStart (s : SourceDesc) (a : StartArgs) :
    (s.handleStart a).consecutiveMissingBlocks =
      if a.streamId = s.streamId then s.consecutiveMissingBlocks else 0 := by
  have hhead : ∀ (s : SourceDesc) (b : JitterBuffer),
      ({ s with jitterBuffer := b } : SourceDesc).consecutiveMissingBlocks =
        s.consecutiveMissingBlocks :=
    fun _ _ => rfl
  have hrestart : ∀ s : SourceDesc,
      (s.restart a).consecutiveMissingBlocks = s.consecutiveMissingBlocks := by
    intro s
    unfold restart
    exact (hhead _ _).trans (s.missing_update a.update)
  unfold handleStart
  split
  · rfl
  · dsimp only
    split
    · split
      · exact hrestart _
      · rfl
    · split
      · exact hrestart _
      · rfl

/-- The code counts what is concealed in a row. -/
def Watched (p : SourceDesc × Nat) : Prop :=
  p.2 = p.1.consecutiveMissingBlocks ∧ p.2 ≤ 3

/-- The count that is kept beside the code agrees with its own after a step. -/
theorem Watched.step {p : SourceDesc × Nat} (h : Watched p) (a : SinkAction) :
    Watched (watch p a) := by
  obtain ⟨s, n⟩ := p
  obtain ⟨hcount, hle⟩ := h
  dsimp only at hcount hle
  subst hcount
  show missingInRow s s.consecutiveMissingBlocks a = (s.step a).consecutiveMissingBlocks ∧
    missingInRow s s.consecutiveMissingBlocks a ≤ 3
  -- most actions leave the count alone
  have hkeep : ∀ t : SourceDesc, t.consecutiveMissingBlocks = s.consecutiveMissingBlocks →
      s.consecutiveMissingBlocks =
          (if s.decoder.isSome = true then t else s).consecutiveMissingBlocks ∧
        s.consecutiveMissingBlocks ≤ 3 := by
    intro t ht
    refine ⟨?_, hle⟩
    split
    · exact ht.symm
    · rfl
  cases a with
  | handleStart a =>
    have hstart := s.missing_handleStart a
    refine ⟨hstart.symm, ?_⟩
    rw [missingInRow]
    split
    · exact hle
    · exact Nat.zero_le 3
  | update u => exact hkeep _ (s.missing_update u)
  | setState streamState stopped underrun =>
    exact hkeep { s with streamState, stopped, underrun } rfl
  | handleUnderrun => exact hkeep s.handleUnderrun rfl
  | addPacket d => exact hkeep _ (s.missing_addPacket d)
  | checkMissingBlocks resendEnabled limit due =>
    exact hkeep _ (s.beside_checkMissingBlocks resendEnabled limit due).missing
  | tryDecodeBlock i =>
    have hcounts := s.tryDecodeBlock_counts i
    rw [missingInRow, SourceDesc.step]
    split
    · split
      next hplayed => exact ⟨(hcounts.nothing hplayed).symm, hle⟩
      next hplayed => exact ⟨(hcounts.block hplayed).symm, Nat.zero_le 3⟩
      next hplayed =>
        split
        next hthree => exact ⟨(hcounts.fourth hplayed hthree).1.symm, Nat.zero_le 3⟩
        next hfew =>
          have hlt : s.consecutiveMissingBlocks < 3 := by omega
          exact ⟨(hcounts.concealment hplayed hlt).1.symm, hlt⟩
    · exact ⟨rfl, hle⟩

/-- So it does in every run. -/
theorem watched_run (as : List SinkAction) : Watched (as.foldl watch ({}, 0)) := by
  have hrun : ∀ (as : List SinkAction) (p : SourceDesc × Nat), Watched p →
      Watched (as.foldl watch p) := by
    intro as
    induction as with
    | nil =>
      intro p h
      exact h
    | cons a as ih =>
      intro p h
      exact ih _ (h.step a)
  exact hrun as ({}, 0) ⟨rfl, Nat.zero_le 3⟩

end SourceDesc

/-- **The depth of a wired stream is exact**: for all contents of the jitter buffer a call gives up
blocks, becomes active and takes blocks as `WiredCall` says; and in every run at most three
blocks have been concealed in a row, after which a call that conceals a block empties the buffer
and makes the stream buffer again, while before it does not. -/
theorem wired_depth :
    (∀ (s : SourceDesc) (bs fs : List ReceivedBlock) (i : SourceDesc.DecodeInput),
      s.wired = true → s.jitterBuffer.Ring bs fs → s.WiredCall i bs) ∧
    ∀ as : List SinkAction,
      let p := as.foldl SourceDesc.watch ({}, 0)
      p.1 = as.foldl SourceDesc.step {} ∧ p.2 ≤ 3 ∧
        ∀ i, p.1.played i = .concealment →
          if p.2 = 3 then
            (p.1.tryDecodeBlock i).1.streamState = .buffering ∧
              (p.1.tryDecodeBlock i).1.jitterBuffer.size = 0
          else (p.1.tryDecodeBlock i).1.streamState ≠ .buffering := by
  constructor
  · intro s bs fs i hw hring
    exact SourceDesc.wiredCall hw hring i
  · intro as p
    obtain ⟨hcount, hle⟩ : SourceDesc.Watched p := SourceDesc.watched_run as
    refine ⟨?_, hle, ?_⟩
    · have hfst : ∀ (as : List SinkAction) (q : SourceDesc × Nat),
          (as.foldl SourceDesc.watch q).1 = as.foldl SourceDesc.step q.1 := by
        intro as
        induction as with
        | nil =>
          intro q
          rfl
        | cons a as ih =>
          intro q
          exact ih _
      exact hfst as ({}, 0)
    · intro i hplayed
      have hcounts := p.1.tryDecodeBlock_counts i
      split
      next hthree => exact (hcounts.fourth hplayed (hcount.symm.trans hthree)).2
      next hne =>
        have hlt : p.1.consecutiveMissingBlocks < 3 := by omega
        exact (hcounts.concealment hplayed hlt).2

/-- Block 5 is not there, and the complete blocks 6, 7 and 8 are one more than the depth: the
call gives up blocks 5 and 6 and plays block 7. -/
theorem wired_two_blocks :
    let gap : ReceivedBlock := ({} : ReceivedBlock).initPlaceholder 5
    let bs : List ReceivedBlock := [gap, { sequence := 6 }, { sequence := 7 }, { sequence := 8 }]
    let s : SourceDesc := {
      decoder := some 64
      lowLatency := some ⟨1, 1, 1, 1, 64, 1024, 1, 48000, 128, 7, [0]⟩
      latencyBlocks := 2
      streamState := .buffering
      jitterBuffer :=
        { data := bs ++ [{}], size := 4, head := 4, lastPushed := 8, lastPopped := 4 } }
    s.WiredCall ⟨0, false, false, true⟩ bs ∧
      (s.tryDecodeBlock ⟨0, false, false, true⟩).1.jitterBuffer.blocks = [{ sequence := 8 }] := by
  intro gap bs s
  have hring : s.jitterBuffer.Ring bs [{}] :=
    ⟨⟨by decide, by decide, by decide⟩, by decide, by decide, by decide⟩
  exact ⟨wired_depth.1 s bs [{}] ⟨0, false, false, true⟩ (by decide) hring, by decide⟩

end Aoo.Stream
