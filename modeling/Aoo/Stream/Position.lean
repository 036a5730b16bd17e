import Aoo.Lib.Run
import Aoo.Stream.Depth
import Aoo.Stream.Reassembly

/-!
# Low-latency playout moves forward

A low-latency stream has a position, `lastAbsoluteSamplePosition`, behind which nothing
is played: packets of earlier samples are refused. It moves to the end of each block that
is played or given up, and on by one block for each that is missing.

`Advancing` ties the blocks in the jitter buffer and the blocks that were played to the
position. It holds along every run in which the position stays below 2⁶⁴ and the
resampler takes the blocks it is given, so that the position never goes back and
the blocks are played in the order of their samples (`playout_forward`). Close to 2⁶⁴ the
position wraps (`position_wraps`).
-/

namespace Aoo.Stream

open Lib

/-- Where the blocks of streams lie: stream by stream, the position of each sequence
number and the number of frames of a block. -/
structure Timeline where
  position : Int → Int → Nat
  frames : Int → Nat
  strict : ∀ stream a b, 0 ≤ a → a < b → position stream a < position stream b

/-- The packet carries the position of its block. -/
structure NetPacket.OnTimeline (d : NetPacket) (tl : Timeline) : Prop where
  position : d.absoluteSamplePosition.toNat = tl.position d.streamId d.sequence
  frames : d.blockFrames.toNat = tl.frames d.streamId

/-- A packet of a low-latency stream is on the timeline. -/
def SinkAction.OnTimeline (tl : Timeline) (s : SourceDesc) : SinkAction → Prop
  | .addPacket d => d.streamId = s.streamId → s.lowLatency.isSome = true → d.OnTimeline tl
  | _ => True

/-- Before a `try_decode_block` of a low-latency stream, the position and the ends of the
blocks are at least one block away from 2⁶⁴; and the resampler has room, or there is no
complete block to be decoded. -/
structure SourceDesc.HasRoom (s : SourceDesc) (i : SourceDesc.DecodeInput) : Prop where
  position : s.lastAbsoluteSamplePosition.toNat + s.frameSize < 2 ^ 64
  blocks : ∀ b ∈ s.jitterBuffer.blocks,
    b.absoluteSamplePosition.toNat + max b.blockFrames.toNat s.frameSize + s.frameSize < 2 ^ 64
  written : i.written = true ∨ ∀ b ∈ s.jitterBuffer.blocks, b.complete = false

def SinkAction.HasRoom (s : SourceDesc) : SinkAction → Prop
  | .tryDecodeBlock i => s.lowLatency.isSome = true → s.HasRoom i
  | _ => True

/-! ## The invariant -/

/-- A block that a packet has started: it lies on the timeline, behind everything that
was played. -/
structure ReceivedBlock.Timed (b : ReceivedBlock) (tl : Timeline) (s : SourceDesc) : Prop where
  position : b.absoluteSamplePosition.toNat = tl.position s.streamId b.sequence
  frames : b.blockFrames.toNat = tl.frames s.streamId
  later : ∀ p ∈ s.decoded, p.absoluteSamplePosition.toNat < b.absoluteSamplePosition.toNat

/-- Blocks, free slots and position of a low-latency stream. -/
structure SourceDesc.Advancing (s : SourceDesc) (tl : Timeline) (bs fs : List ReceivedBlock) :
    Prop where
  blocks : ∀ b ∈ bs, b.Unknown ∨ b.Timed tl s
  vacant : ∀ y ∈ fs, y.Vacant
  played : ∀ p ∈ s.decoded,
    p.absoluteSamplePosition.toNat + tl.frames s.streamId ≤ s.lastAbsoluteSamplePosition.toNat

/-- The blocks were played in the order of their samples; the list has the latest first. -/
def SourceDesc.InOrder (s : SourceDesc) : Prop :=
  s.decoded.Pairwise fun p q => q.absoluteSamplePosition < p.absoluteSamplePosition

namespace SourceDesc

variable {s t : SourceDesc} {tl : Timeline} {bs bs' fs fs' : List ReceivedBlock}

theorem timed_congr {b : ReceivedBlock} (hstream : t.streamId = s.streamId)
    (hdecoded : t.decoded = s.decoded) (h : b.Timed tl s) : b.Timed tl t :=
  ⟨by rw [hstream]; exact h.position, by rw [hstream]; exact h.frames,
    by rw [hdecoded]; exact h.later⟩

/-- Blocks leave, and the position moves on. -/
theorem Advancing.mono (h : s.Advancing tl bs fs) (hstream : t.streamId = s.streamId)
    (hdecoded : t.decoded = s.decoded)
    (hpos : s.lastAbsoluteSamplePosition.toNat ≤ t.lastAbsoluteSamplePosition.toNat)
    (hbs : ∀ b ∈ bs', b ∈ bs) (hfs : ∀ y ∈ fs', y.Vacant) : t.Advancing tl bs' fs' where
  blocks := fun b hb => (h.blocks b (hbs b hb)).imp_right (timed_congr hstream hdecoded)
  vacant := hfs
  played := by
    rw [hdecoded, hstream]
    exact fun p hp => Nat.le_trans (h.played p hp) hpos

theorem vacant_pop {x : ReceivedBlock} (h : ∀ y ∈ fs, y.Vacant) : ∀ y ∈ fs ++ [x.clear], y.Vacant := by
  intro y hy
  rcases List.mem_append.mp hy with hy | hy
  · exact h y hy
  · rw [List.mem_singleton.mp hy]
    exact x.vacant_clear

theorem vacant_map_clear (data : List ReceivedBlock) : ∀ y ∈ data.map (·.clear), y.Vacant := by
  intro y hy
  obtain ⟨z, -, rfl⟩ := List.mem_map.mp hy
  exact z.vacant_clear

theorem not_complete_unknown {b : ReceivedBlock} (h : b.Unknown) : b.complete = false := by
  refine decide_eq_false fun hc => ?_
  rw [h.received, h.size] at hc
  exact absurd hc (by decide)

/-! ## `try_decode_block` -/

/-- The end of a block that is not too late. -/
theorem blockEnd_toNat {b : ReceivedBlock}
    (h : b.absoluteSamplePosition.toNat + max b.blockFrames.toNat s.frameSize < 2 ^ 64) :
    (s.blockEnd b).toNat = b.absoluteSamplePosition.toNat + max b.blockFrames.toNat s.frameSize := by
  rw [blockEnd, UInt64.toNat_add, UInt64.toNat_ofNat']
  omega

theorem toNat_max (a b : UInt64) : (max a b).toNat = max a.toNat b.toNat := by
  show (if a ≤ b then b else a).toNat = _
  split
  next h => exact (Nat.max_eq_right h).symm
  next h => exact (Nat.max_eq_left (Nat.le_of_lt (UInt64.not_le.mp h))).symm

/-- The position after a block that is not too late. -/
theorem toNat_max_blockEnd {b : ReceivedBlock}
    (h : b.absoluteSamplePosition.toNat + max b.blockFrames.toNat s.frameSize < 2 ^ 64) :
    (max s.lastAbsoluteSamplePosition (s.blockEnd b)).toNat =
      max s.lastAbsoluteSamplePosition.toNat
        (b.absoluteSamplePosition.toNat + max b.blockFrames.toNat s.frameSize) := by
  rw [toNat_max, blockEnd_toNat h]

/-- What is known before `try_decode_block` drains the buffer. -/
structure Ready (s : SourceDesc) (tl : Timeline) (w : Bool) (bs fs : List ReceivedBlock) : Prop where
  strong : s.jitterBuffer.Strong bs fs
  advancing : s.Advancing tl bs fs
  inOrder : s.InOrder
  lowLatency : s.lowLatency.isSome = true
  position : s.lastAbsoluteSamplePosition.toNat + s.frameSize < 2 ^ 64
  ends : ∀ b ∈ bs,
    b.absoluteSamplePosition.toNat + max b.blockFrames.toNat s.frameSize + s.frameSize < 2 ^ 64
  written : w = true ∨ ∀ b ∈ bs, b.complete = false

/-- What is known behind: of the blocks `bs` some are left, and the position has moved
forward, still one block away from the limit unless a block was missing. -/
structure Forward (s t : SourceDesc) (tl : Timeline) (m : Bool) (bs bs' fs' : List ReceivedBlock) :
    Prop where
  strong : t.jitterBuffer.Strong bs' fs'
  advancing : t.Advancing tl bs' fs'
  inOrder : t.InOrder
  subset : ∀ b ∈ bs', b ∈ bs
  le : s.lastAbsoluteSamplePosition.toNat ≤ t.lastAbsoluteSamplePosition.toNat
  position : m = false → t.lastAbsoluteSamplePosition.toNat + s.frameSize < 2 ^ 64

/-- A block that is decoded comes behind all that were decoded, and in front of all that
are left. -/
theorem advancing_decode {x : ReceivedBlock} (hs : s.jitterBuffer.Strong (x :: bs) fs)
    (h : s.Advancing tl (x :: bs) fs) (hx : x.Timed tl s) (hstream : t.streamId = s.streamId)
    (hdecoded : t.decoded = x :: s.decoded)
    (hle : s.lastAbsoluteSamplePosition.toNat ≤ t.lastAbsoluteSamplePosition.toNat)
    (hend : x.absoluteSamplePosition.toNat + x.blockFrames.toNat ≤
      t.lastAbsoluteSamplePosition.toNat) : t.Advancing tl bs (fs ++ [x.clear]) where
  blocks := by
    intro b hb
    refine (h.blocks b (List.mem_cons_of_mem _ hb)).imp_right fun ht => ?_
    refine ⟨by rw [hstream]; exact ht.position, by rw [hstream]; exact ht.frames, ?_⟩
    rw [hdecoded]
    intro p hp
    rcases List.mem_cons.mp hp with rfl | hp
    · rw [hx.position, ht.position]
      obtain ⟨i, hi, rfl⟩ := List.getElem_of_mem hb
      have hfirst := hs.sequence 0 (by simp)
      have hother := hs.sequence (i + 1) (by simpa using hi)
      simp only [List.getElem_cons_zero, List.getElem_cons_succ, List.length_cons] at hfirst hother
      exact tl.strict _ _ _ (hs.range (List.mem_cons_self ..)).1 (by push_cast at hother; omega)
    · exact ht.later p hp
  vacant := vacant_pop h.vacant
  played := by
    rw [hdecoded, hstream]
    intro p hp
    rcases List.mem_cons.mp hp with rfl | hp
    · rw [← hx.frames]
      exact hend
    · exact Nat.le_trans (h.played p hp) hle

theorem inOrder_decode {x : ReceivedBlock} (h : s.InOrder) (hx : x.Timed tl s)
    (hdecoded : t.decoded = x :: s.decoded) : t.InOrder := by
  rw [InOrder, hdecoded]
  exact List.pairwise_cons.mpr ⟨fun p hp => hx.later p hp, h⟩

/-- A step that decodes nothing. -/
theorem Forward.quiet {m m' : Bool} {u : SourceDesc} {bs'' fs'' : List ReceivedBlock}
    (h : Forward s t tl m bs bs' fs') (hq : t.Quiet u)
    (hstrong : u.jitterBuffer.Strong bs'' fs'') (hsubset : ∀ b ∈ bs'', b ∈ bs')
    (hvacant : ∀ y ∈ fs'', y.Vacant)
    (hle : t.lastAbsoluteSamplePosition.toNat ≤ u.lastAbsoluteSamplePosition.toNat)
    (hpos : m' = false → u.lastAbsoluteSamplePosition.toNat + s.frameSize < 2 ^ 64) :
    Forward s u tl m' bs bs'' fs'' where
  strong := hstrong
  advancing := h.advancing.mono hq.streamId hq.decoded hle hsubset hvacant
  inOrder := by
    rw [InOrder, hq.decoded]
    exact h.inOrder
  subset := fun b hb => h.subset b (hsubset b hb)
  le := Nat.le_trans h.le hle
  position := hpos

/-- **Draining moves forward.** -/
theorem drains_forward {w m : Bool} (h : Drains w s m t) (hs : s.Ready tl w bs fs) :
    ∃ bs' fs', Forward s t tl m bs bs' fs' := by
  have hsize : ∀ {m : Bool} {u : SourceDesc}, Drains w s m u → u.frameSize = s.frameSize :=
    fun h => by rw [frameSize, frameSize, h.keeps.decoder]
  induction h with
  | refl =>
    exact ⟨bs, fs, hs.strong, hs.advancing, hs.inOrder, fun b hb => hb, Nat.le_refl _,
      fun _ => hs.position⟩
  | keep h hq hj hp ih =>
    obtain ⟨bs', fs', hf⟩ := ih
    exact ⟨bs', fs', hf.quiet hq (by rw [hj]; exact hf.strong) (fun b hb => hb)
      hf.advancing.vacant (by rw [hp]) (by rw [hp]; exact hf.position)⟩
  | miss h hq hj hp ih =>
    obtain ⟨bs', fs', hf⟩ := ih
    have hlimit := hf.position rfl
    refine ⟨bs', fs', hf.quiet hq (by rw [hj]; exact hf.strong) (fun b hb => hb)
      hf.advancing.vacant ?_ Bool.noConfusion⟩
    rw [hp, hsize h, UInt64.toNat_add, UInt64.toNat_ofNat']
    omega
  | reset h hq hj hp ih =>
    obtain ⟨bs', fs', hf⟩ := ih
    exact ⟨[], _, hf.quiet hq
      (by rw [hj]; exact JitterBuffer.strong_reset hf.strong.ring.capacity_pos)
      (fun b hb => absurd hb List.not_mem_nil) (vacant_map_clear _) (by rw [hp])
      (by rw [hp]; exact hf.position)⟩
  | pop h hq hpos hj hp ih =>
    obtain ⟨bs', fs', hf⟩ := ih
    obtain ⟨x, bs', rfl⟩ := hf.strong.exists_cons (hpos ⟨bs, fs, hs.strong⟩)
    have hends := hs.ends x (hf.subset x (List.mem_cons_self ..))
    refine ⟨_, _, hf.quiet hq (by rw [hj]; exact hf.strong.pop)
      (fun b hb => List.mem_cons_of_mem _ hb) (vacant_pop hf.advancing.vacant) ?_ fun hm => ?_⟩
    · rcases hp with hp | hp
      · rw [hp]
      · rw [hp, toNat_max]
        exact Nat.le_max_left ..
    · have hlimit := hf.position hm
      rcases hp with hp | hp
      · rw [hp]
        exact hlimit
      · rw [hf.strong.ring.front_eq] at hp
        rw [hp, toNat_max_blockEnd (by rw [hsize h]; omega), hsize h]
        omega
  | advance h hq hempty hj hp ih =>
    obtain ⟨bs', fs', hf⟩ := ih
    obtain rfl := hf.strong.eq_nil hempty
    exact ⟨[], fs', hf.quiet hq (by rw [hj]; exact hf.strong.advanceMissing) (fun b hb => hb)
      hf.advancing.vacant (by rw [hp]) (by rw [hp]; exact hf.position)⟩
  | decode h hk hpos hcomplete hj hc hd hp ih =>
    obtain ⟨bs', fs', hf⟩ := ih
    obtain ⟨x, bs', rfl⟩ := hf.strong.exists_cons hpos
    rw [hf.strong.ring.front_eq] at hcomplete hd hp
    have hmem := hf.subset x (List.mem_cons_self ..)
    have hends := hs.ends x hmem
    have hx := (hf.advancing.blocks x (List.mem_cons_self ..)).resolve_left fun hu => by
      rw [not_complete_unknown hu] at hcomplete
      cases hcomplete
    -- the resampler has room, so the position moves to the end of the block
    have hposition := hp.resolve_left fun hstay => by
      rcases hstay.2 with hw | hll
      · have hnone := (hs.written.resolve_left (by rw [hw]; decide)) x hmem
        rw [hnone] at hcomplete
        cases hcomplete
      · have hll' := hs.lowLatency
        rw [← h.keeps.lowLatency, hll] at hll'
        cases hll'
    have hnat := congrArg UInt64.toNat hposition
    rw [toNat_max_blockEnd (by rw [hsize h]; omega), hsize h] at hnat
    refine ⟨bs', _, by rw [hj]; exact hf.strong.pop,
      advancing_decode hf.strong hf.advancing hx hk.streamId hd (by omega) (by omega),
      inOrder_decode hf.inOrder hx hd, fun b hb => hf.subset b (List.mem_cons_of_mem _ hb),
      Nat.le_trans hf.le (by omega), fun hm => ?_⟩
    have hlimit := hf.position hm
    omega

/-! ## Packets -/

theorem take_fields (b : ReceivedBlock) (d : NetPacket) :
    (b.take d).absoluteSamplePosition = b.absoluteSamplePosition ∧
      (b.take d).blockFrames = b.blockFrames ∧ (b.take d).sequence = b.sequence := by
  unfold ReceivedBlock.take ReceivedBlock.addFrame
  split <;> exact ⟨rfl, rfl, rfl⟩

/-- A packet that is not refused lies behind everything that was played. -/
theorem later_of_fresh (h : s.Advancing tl bs fs) {d : NetPacket} (hstream : d.streamId = s.streamId)
    (hd : d.OnTimeline tl)
    (hfresh : ¬ d.absoluteSamplePosition + UInt64.ofNat d.blockFrames.toNat ≤
      s.lastAbsoluteSamplePosition) :
    ∀ p ∈ s.decoded, p.absoluteSamplePosition.toNat < d.absoluteSamplePosition.toNat := by
  intro p hp
  have hplayed := h.played p hp
  have hframes := hd.frames
  rw [hstream] at hframes
  rw [UInt64.not_le, UInt64.lt_iff_toNat_lt, UInt64.toNat_add, UInt64.toNat_ofNat'] at hfresh
  have hlast := s.lastAbsoluteSamplePosition.toNat_lt
  -- a sum beyond 2⁶⁴ has a position that is later than anything played
  omega

/-- The block that a packet starts. -/
theorem timed_init {d : NetPacket} (hstream : d.streamId = s.streamId) (hd : d.OnTimeline tl)
    (hlater : ∀ p ∈ s.decoded, p.absoluteSamplePosition.toNat < d.absoluteSamplePosition.toNat)
    (b : ReceivedBlock) (resent : Bool) :
    (({ b.init d.toDataPacket with resent := resent } : ReceivedBlock).take d).Timed tl s := by
  obtain ⟨h1, h2, h3⟩ := take_fields { b.init d.toDataPacket with resent := resent } d
  refine ⟨?_, ?_, ?_⟩
  · rw [h1, h3, ← hstream]
    exact hd.position
  · rw [h2, ← hstream]
    exact hd.frames
  · rw [h1]
    exact hlater

theorem unknown_of_fresh (h : ∀ y ∈ fs, y.Vacant) {x : ReceivedBlock} (hx : Fresh fs x) (seq : Int) :
    (x.initPlaceholder seq).Unknown := by
  rcases hx with hx | ⟨y, rfl⟩
  · exact (h x hx).initPlaceholder seq
  · exact y.vacant_clear.initPlaceholder seq

/-- What a packet does to the blocks. -/
theorem Advancing.adds {d : NetPacket} {cs : List Call} (h : s.Advancing tl bs fs)
    (hstream : d.streamId = s.streamId) (hd : d.OnTimeline tl)
    (hlater : ∀ p ∈ s.decoded, p.absoluteSamplePosition.toNat < d.absoluteSamplePosition.toNat)
    (ha : Adds s bs fs d bs' fs' cs) : s.Advancing tl bs' fs' := by
  have hset : ∀ i b, b.Timed tl s → ∀ b' ∈ bs.set i b, b'.Unknown ∨ b'.Timed tl s := by
    intro i b hb b' hmem
    rcases List.mem_or_eq_of_mem_set hmem with hmem | rfl
    · exact h.blocks b' hmem
    · exact Or.inr hb
  cases ha with
  | refused => exact h
  | duplicate => exact h
  | started i hi hseq hplaceholder resent =>
    exact ⟨hset i _ (timed_init hstream hd hlater _ resent), h.vacant, h.played⟩
  | extended i hi hseq hempty hplaceholder hnew resent =>
    refine ⟨hset i _ ?_, h.vacant, h.played⟩
    have ht := (h.blocks bs[i] (List.getElem_mem hi)).resolve_left fun hu => by
      rw [ReceivedBlock.placeholder, hu.received] at hplaceholder
      exact absurd hplaceholder (by decide)
    obtain ⟨h1, h2, h3⟩ := take_fields { bs[i] with resent := resent } d
    exact ⟨by rw [h1, h3]; exact ht.position, by rw [h2]; exact ht.frames,
      by rw [h1]; exact ht.later⟩
  | appended _ _ _ happ hnone =>
    obtain ⟨bs₀, ps, x, fs', cs, hold, hps, hx, hfs, hcs⟩ := happ
    refine ⟨fun b hb => ?_, fun y hy => ?_, h.played⟩
    · rcases List.mem_append.mp hb with hb | hb
      · rcases List.mem_append.mp hb with hb | hb
        · rcases hold with rfl | rfl
          · exact h.blocks b hb
          · cases hb
        · obtain ⟨y, seq, hy, rfl⟩ := hps b hb
          exact Or.inl (unknown_of_fresh h.vacant hy seq)
      · rw [List.mem_singleton.mp hb]
        exact Or.inr (timed_init hstream hd hlater x false)
    · rcases hfs y hy with hy | ⟨z, rfl⟩
      · exact h.vacant y hy
      · exact z.vacant_clear
  | behind => exact h

/-- A packet keeps what is known of the blocks. -/
theorem advancing_addPacket {d : NetPacket} (hs : s.jitterBuffer.Strong bs fs)
    (h : s.Advancing tl bs fs) (hll : s.lowLatency.isSome = true)
    (hrange : 0 ≤ d.sequence ∧ d.sequence ≤ 2147483646)
    (hd : d.streamId = s.streamId → s.lowLatency.isSome = true → d.OnTimeline tl) :
    ∃ bs' fs', (s.addPacket d).1.jitterBuffer.Strong bs' fs' ∧
      (s.addPacket d).1.Advancing tl bs' fs' := by
  by_cases hstream : d.streamId = s.streamId
  · by_cases hfresh : d.absoluteSamplePosition + UInt64.ofNat d.blockFrames.toNat ≤
        s.lastAbsoluteSamplePosition
    · rw [addPacket, if_neg (not_not.mpr hstream), if_pos ⟨hll, hfresh⟩]
      exact ⟨bs, fs, hs, h⟩
    · obtain ⟨bs', fs', cs, hstrong, -, hadds⟩ := addPacket_adds hs hrange
      have hsteady := s.steady_addPacket d
      have htl := hd hstream hll
      have hadv := h.adds hstream htl (later_of_fresh h hstream htl hfresh) hadds
      exact ⟨bs', fs', hstrong, hadv.mono hsteady.streamId hsteady.decoded
        (by rw [hsteady.position]) (fun b hb => hb) hadv.vacant⟩
  · rw [addPacket_other hstream]
    exact ⟨bs, fs, hs, h⟩

/-- Requests keep it, too. -/
theorem advancing_checkMissingBlocks (hs : s.jitterBuffer.Strong bs fs)
    (h : s.Advancing tl bs fs) (resendEnabled : Bool) (limit : Int) (due : List Bool) :
    ∃ bs' fs', (s.checkMissingBlocks resendEnabled limit due).jitterBuffer.Strong bs' fs' ∧
      (s.checkMissingBlocks resendEnabled limit due).Advancing tl bs' fs' := by
  obtain ⟨bs', cs, hstrong, hlen, htries, -, -⟩ :=
    checkMissingBlocks_strong hs resendEnabled limit due
  have hsteady := s.steady_checkMissingBlocks resendEnabled limit due
  have hadv : s.Advancing tl bs' fs := by
    refine ⟨fun b hb => ?_, h.vacant, h.played⟩
    obtain ⟨i, hi, rfl⟩ := List.getElem_of_mem hb
    obtain ⟨n, t, hn⟩ := htries i hi (hlen ▸ hi)
    rw [hn]
    refine (h.blocks _ (List.getElem_mem (hlen ▸ hi))).imp (fun hu => ?_) fun ht => ?_
    · exact ⟨hu.received, hu.size⟩
    · exact ⟨ht.position, ht.frames, ht.later⟩
  exact ⟨bs', fs, hstrong, hadv.mono hsteady.streamId hsteady.decoded (by rw [hsteady.position])
    (fun b hb => hb) hadv.vacant⟩

/-! ## Runs -/

/-- What holds between two actions. -/
structure OnTrack (s : SourceDesc) (tl : Timeline) : Prop where
  inOrder : s.lowLatency.isSome = true → s.InOrder
  advancing : s.decoder.isSome = true → s.lowLatency.isSome = true →
    ∃ bs fs, s.jitterBuffer.Strong bs fs ∧ s.Advancing tl bs fs

/-- An action has kept the track, and moved the position forward if it has kept the stream. -/
structure Onward (s t : SourceDesc) (tl : Timeline) : Prop where
  onTrack : t.OnTrack tl
  le : s.lowLatency.isSome = true → t.streamId = s.streamId →
    s.lastAbsoluteSamplePosition.toNat ≤ t.lastAbsoluteSamplePosition.toNat

theorem onward_refl (h : s.OnTrack tl) : s.Onward s tl := ⟨h, fun _ _ => Nat.le_refl _⟩

/-- An empty buffer. -/
theorem onward_empty (h : s.OnTrack tl) (hd : s.decoder.isSome = true)
    (hll : t.lowLatency.isSome = s.lowLatency.isSome) (hstream : t.streamId = s.streamId)
    (hdecoded : t.decoded = s.decoded)
    (hpos : t.lastAbsoluteSamplePosition = s.lastAbsoluteSamplePosition)
    (hstrong : s.lowLatency.isSome = true → t.jitterBuffer.Strong [] fs')
    (hvacant : ∀ y ∈ fs', y.Vacant) : s.Onward t tl := by
  refine ⟨⟨fun hll' => ?_, fun _ hll' => ?_⟩, fun _ _ => by rw [hpos]⟩
  · rw [InOrder, hdecoded]
    exact h.inOrder (hll ▸ hll')
  · obtain ⟨bs, fs, -, hadv⟩ := h.advancing hd (hll ▸ hll')
    exact ⟨[], fs', hstrong (hll ▸ hll'), hadv.mono hstream hdecoded (by rw [hpos])
      (fun b hb => absurd hb List.not_mem_nil) hvacant⟩

/-- A new stream starts with an empty buffer and at position 0. -/
theorem onTrack_restart (hs : s.decoded = []) (hd : s.decoder.isSome = true) (a : StartArgs)
    (ha : 0 ≤ a.seqStart ∨ a.seqStart ≤ -2147483647) : (s.restart a).OnTrack tl := by
  obtain ⟨fs, hstrong, -, hvacant⟩ := restart_sound hd a ha
  have hdecoded : (s.restart a).decoded = [] := (s.restart_frame a).2.2.1.trans hs
  refine ⟨fun _ => ?_, fun _ _ => ⟨[], fs, hstrong, List.forall_mem_nil _, hvacant, ?_⟩⟩
  · rw [InOrder, hdecoded]
    exact List.Pairwise.nil
  · rw [hdecoded]
    exact List.forall_mem_nil _

theorem onward_handleStart (h : s.OnTrack tl) (a : StartArgs)
    (ha : 0 ≤ a.seqStart ∨ a.seqStart ≤ -2147483647) : s.Onward (s.handleStart a) tl := by
  unfold handleStart
  split
  next => exact onward_refl h
  next hne =>
    -- the id changes, so that only the new stream counts
    have hstop : ∀ t : SourceDesc, t.streamId = a.streamId → t.OnTrack tl → s.Onward t tl :=
      fun t hid ht => ⟨ht, fun _ heq => absurd (hid.symm.trans heq) hne⟩
    simp only
    split
    next =>
      split
      next =>
        refine hstop _ (restart_frame _ a).1 (onTrack_restart ?_ ?_ a ha)
        · rfl
        · rfl
      next => exact hstop _ rfl ⟨fun _ => List.Pairwise.nil, nofun⟩
    next =>
      split
      next hd =>
        refine hstop _ (restart_frame _ a).1 (onTrack_restart ?_ ?_ a ha)
        · rfl
        · exact hd
      next hd => exact hstop _ rfl ⟨fun _ => List.Pairwise.nil, fun hd' => absurd hd' hd⟩

theorem onward_update (h : s.OnTrack tl) (hd : s.decoder.isSome = true) (u : UpdateArgs) :
    s.Onward (s.update u) tl := by
  obtain ⟨fs, hstrong, -, -, hvacant⟩ := update_sound hd u
  obtain ⟨n, hn⟩ := Option.isSome_iff_exists.mp hd
  have hfields : (s.update u).lowLatency.isSome = s.lowLatency.isSome ∧
      (s.update u).streamId = s.streamId ∧ (s.update u).decoded = s.decoded ∧
      (s.update u).lastAbsoluteSamplePosition = s.lastAbsoluteSamplePosition := by
    unfold update
    rw [hn]
    exact ⟨Option.isSome_map .., rfl, rfl, rfl⟩
  exact onward_empty h hd hfields.1 hfields.2.1 hfields.2.2.1 hfields.2.2.2 (fun _ => hstrong)
    hvacant

theorem onward_tryDecodeBlock (h : s.OnTrack tl) (hd : s.decoder.isSome = true) (i : DecodeInput)
    (hroom : s.lowLatency.isSome = true → s.HasRoom i) :
    s.Onward (s.tryDecodeBlock i).1 tl := by
  obtain ⟨m, hdrain⟩ := s.tryDecodeBlock_drains i
  obtain ⟨hj, -, hdecoded, hpos, hstream, hdecoder, hll, -⟩ := s.retarget_frame i.target
  have hforward : s.lowLatency.isSome = true → ∃ bs bs' fs',
      Forward (s.retarget i.target) (s.tryDecodeBlock i).1 tl m bs bs' fs' := by
    intro hlow
    obtain ⟨bs, fs, hs, hadv⟩ := h.advancing hd hlow
    have hroom := hroom hlow
    have hblocks : s.jitterBuffer.blocks = bs := hs.ring.blocks_eq
    have hsize : (s.retarget i.target).frameSize = s.frameSize := by
      rw [frameSize, frameSize, hdecoder]
    refine ⟨bs, drains_forward hdrain (?_ : (s.retarget i.target).Ready _ _ bs fs)⟩
    exact {
      strong := by rw [hj]; exact hs
      advancing := hadv.mono hstream hdecoded (by rw [hpos]) (fun b hb => hb) hadv.vacant
      inOrder := by rw [InOrder, hdecoded]; exact h.inOrder hlow
      lowLatency := hll.trans hlow
      position := by rw [hpos, hsize]; exact hroom.position
      ends := by rw [hsize, ← hblocks]; exact hroom.blocks
      written := by rw [← hblocks]; exact hroom.written }
  have hkeep : (s.tryDecodeBlock i).1.lowLatency.isSome = s.lowLatency.isSome := by
    rw [hdrain.keeps.lowLatency, hll]
  refine ⟨⟨fun hlow => ?_, fun _ hlow => ?_⟩, fun hlow _ => ?_⟩
  · obtain ⟨bs, bs', fs', hf⟩ := hforward (hkeep ▸ hlow)
    exact hf.inOrder
  · obtain ⟨bs, bs', fs', hf⟩ := hforward (hkeep ▸ hlow)
    exact ⟨bs', fs', hf.strong, hf.advancing⟩
  · obtain ⟨bs, bs', fs', hf⟩ := hforward hlow
    rw [← hpos]
    exact hf.le

/-- **One action** keeps the playout on track. -/
theorem onward_step (h : s.OnTrack tl) {a : SinkAction} (hrange : a.InRange)
    (htl : a.OnTimeline tl s) (hroom : a.HasRoom s) : s.Onward (s.step a) tl := by
  cases a with
  | handleStart a => exact onward_handleStart h a hrange
  | update u =>
    rw [step]
    split
    next hd => exact onward_update h hd u
    next => exact onward_refl h
  | setState streamState stopped underrun =>
    rw [step]
    split
    next hd =>
      refine ⟨⟨h.inOrder, fun hd hll => ?_⟩, fun _ _ => Nat.le_refl _⟩
      obtain ⟨bs, fs, hs, hadv⟩ := h.advancing hd hll
      exact ⟨bs, fs, hs, hadv.mono rfl rfl (Nat.le_refl _) (fun b hb => hb) hadv.vacant⟩
    next => exact onward_refl h
  | handleUnderrun =>
    rw [step]
    split
    next hd =>
      refine onward_empty h hd rfl rfl rfl rfl (fun hll => ?_)
        (vacant_map_clear s.jitterBuffer.data)
      obtain ⟨bs, fs, hs, -⟩ := h.advancing hd hll
      exact JitterBuffer.strong_reset hs.ring.capacity_pos
    next => exact onward_refl h
  | addPacket d =>
    rw [step]
    split
    next hd =>
      have hsteady := s.steady_addPacket d
      refine ⟨⟨fun hll => ?_, fun _ hll => ?_⟩, fun _ _ => by rw [hsteady.position]⟩
      · rw [hsteady.lowLatency] at hll
        rw [InOrder, hsteady.decoded]
        exact h.inOrder hll
      · rw [hsteady.lowLatency] at hll
        obtain ⟨bs, fs, hs, hadv⟩ := h.advancing hd hll
        exact advancing_addPacket hs hadv hll hrange htl
    next => exact onward_refl h
  | checkMissingBlocks resendEnabled limit due =>
    rw [step]
    split
    next hd =>
      have hsteady := s.steady_checkMissingBlocks resendEnabled limit due
      refine ⟨⟨fun hll => ?_, fun _ hll => ?_⟩, fun _ _ => by rw [hsteady.position]⟩
      · rw [hsteady.lowLatency] at hll
        rw [InOrder, hsteady.decoded]
        exact h.inOrder hll
      · rw [hsteady.lowLatency] at hll
        obtain ⟨bs, fs, hs, hadv⟩ := h.advancing hd hll
        exact advancing_checkMissingBlocks hs hadv resendEnabled limit due
    next => exact onward_refl h
  | tryDecodeBlock i =>
    rw [step]
    split
    next hd => exact onward_tryDecodeBlock h hd i hroom
    next => exact onward_refl h

end SourceDesc

/-- What is asked of the steps of a run. -/
structure SinkAction.Forward (tl : Timeline) (s : SourceDesc) (a : SinkAction) : Prop where
  inRange : a.InRange
  onTimeline : a.OnTimeline tl s
  hasRoom : a.HasRoom s

/-- **Low-latency playout moves forward.** In every run in which packets lie on the timeline
of their stream and `try_decode_block` has room, the blocks of a low-latency stream are
played in the order of their samples, and no step moves the position of the stream
back. -/
theorem playout_forward (tl : Timeline) (as : List SinkAction)
    (has : StepsAll SourceDesc.step (SinkAction.Forward tl) {} as) :
    (∀ bs, bs <+: as → (bs.foldl SourceDesc.step {}).lowLatency.isSome = true →
      (bs.foldl SourceDesc.step {}).InOrder) ∧
    ∀ bs a, bs ++ [a] <+: as →
      let s := bs.foldl SourceDesc.step {}
      s.lowLatency.isSome = true → (s.step a).streamId = s.streamId →
        s.lastAbsoluteSamplePosition ≤ (s.step a).lastAbsoluteSamplePosition := by
  have hstart : ({} : SourceDesc).OnTrack tl := ⟨nofun, nofun⟩
  have hstep : ∀ s a, SourceDesc.OnTrack s tl → SinkAction.Forward tl s a → s.Onward (s.step a) tl :=
    fun s a hs ha => SourceDesc.onward_step hs ha.inRange ha.onTimeline ha.hasRoom
  have hrun := StepsAll.invariant (I := fun s : SourceDesc => s.OnTrack tl)
    (fun s a hs ha => (hstep s a hs ha).onTrack) hstart has
  refine ⟨fun bs hbs => (hrun bs hbs).inOrder, fun bs a hbs hll hid => ?_⟩
  have hbefore := hrun bs ((List.prefix_append bs [a]).trans hbs)
  exact (hstep _ a hbefore (stepsAll_iff.mp has bs a hbs)).le hll hid

/-- Blocks of 64 frames, one behind the other from position `origin` on. -/
def Timeline.even (origin : Nat) : Timeline where
  position := fun _ seq => origin + 64 * seq.toNat
  frames := fun _ => 64
  strict := fun _ a b ha hab => by omega

/-- Two blocks are played, and a third is missing. -/
theorem forward_two_blocks :
    let c : AooLowLatencyStreamConfiguration := ⟨1, 1, 1, 1, 64, 1024, 1, 48000, 64, 7, [0]⟩
    let packet (seq : Int) (position : UInt64) : NetPacket :=
      ⟨⟨seq, 0, 0, 48000, 256, 0, 1, 0, List.replicate 256 0, kAooBinMsgDataLowLatency, 1, 1, 1,
        position, 0, 64, 1⟩, 7⟩
    let as : List SinkAction :=
      [.handleStart ⟨7, 0, some c, some 64, true, ⟨0, 2, 1, 4, [], by decide⟩, by decide⟩,
        .addPacket (packet 0 0), .addPacket (packet 1 64), .setState .buffering false false,
        .tryDecodeBlock ⟨64, false, false, true⟩, .tryDecodeBlock ⟨64, false, false, true⟩,
        .tryDecodeBlock ⟨64, false, false, true⟩]
    ((as.foldl SourceDesc.step {}).decoded.map (·.absoluteSamplePosition) = [64, 0]) ∧
      (as.foldl SourceDesc.step {}).lastAbsoluteSamplePosition = 192 ∧
      (as.foldl SourceDesc.step {}).InOrder := by
  intro c packet as
  refine ⟨by decide +kernel, by decide +kernel, ?_⟩
  refine (playout_forward (.even 0) as ?_).1 as (List.prefix_refl _) (by decide +kernel)
  refine ⟨⟨Or.inl (by decide), trivial, trivial⟩,
    ⟨⟨by decide, by decide⟩, fun _ _ => ⟨by decide, by decide⟩, trivial⟩,
    ⟨⟨by decide, by decide⟩, fun _ _ => ⟨by decide, by decide⟩, trivial⟩,
    ⟨trivial, trivial, trivial⟩, ⟨trivial, trivial, fun _ => ?_⟩,
    ⟨trivial, trivial, fun _ => ?_⟩, ⟨trivial, trivial, fun _ => ?_⟩, trivial⟩
  · exact ⟨by decide +kernel, by decide +kernel, Or.inl rfl⟩
  · exact ⟨by decide +kernel, by decide +kernel, Or.inl rfl⟩
  · exact ⟨by decide +kernel, by decide +kernel, Or.inl rfl⟩

/-- The same stream two blocks away from the end of the position's range: the third block
is missing, and the position goes back to 0. -/
theorem position_wraps :
    let c : AooLowLatencyStreamConfiguration := ⟨1, 1, 1, 1, 64, 1024, 1, 48000, 64, 7, [0]⟩
    let packet (seq : Int) (position : UInt64) : NetPacket :=
      ⟨⟨seq, 0, 0, 48000, 256, 0, 1, 0, List.replicate 256 0, kAooBinMsgDataLowLatency, 1, 1, 1,
        position, 0, 64, 1⟩, 7⟩
    let as : List SinkAction :=
      [.handleStart ⟨7, 0, some c, some 64, true, ⟨0, 2, 1, 4, [], by decide⟩, by decide⟩,
        .addPacket (packet 0 18446744073709551424), .addPacket (packet 1 18446744073709551488),
        .setState .buffering false false, .tryDecodeBlock ⟨64, false, false, true⟩,
        .tryDecodeBlock ⟨64, false, false, true⟩]
    let a : SinkAction := .tryDecodeBlock ⟨64, false, false, true⟩
    let s := as.foldl SourceDesc.step {}
    StepsAll SourceDesc.step (SinkAction.OnTimeline (.even 18446744073709551424)) {} (as ++ [a]) ∧
      s.lowLatency.isSome = true ∧ (s.step a).streamId = s.streamId ∧
      ¬ s.lastAbsoluteSamplePosition ≤ (s.step a).lastAbsoluteSamplePosition := by
  intro c packet as a s
  refine ⟨?_, by decide +kernel, by decide +kernel, by decide +kernel⟩
  exact ⟨trivial, fun _ _ => ⟨by decide, by decide⟩, fun _ _ => ⟨by decide, by decide⟩, trivial,
    trivial, trivial, trivial, trivial⟩

/-- A resampler without room: the first block is decoded but the position stays, so that
after the underrun the same block is taken and decoded once more. -/
theorem block_decoded_twice :
    let c : AooLowLatencyStreamConfiguration := ⟨1, 1, 1, 1, 64, 1024, 1, 48000, 64, 7, [0]⟩
    let packet (seq : Int) (position : UInt64) : NetPacket :=
      ⟨⟨seq, 0, 0, 48000, 256, 0, 1, 0, List.replicate 256 0, kAooBinMsgDataLowLatency, 1, 1, 1,
        position, 0, 64, 1⟩, 7⟩
    let as : List SinkAction :=
      [.handleStart ⟨7, 0, some c, some 64, true, ⟨0, 2, 1, 4, [], by decide⟩, by decide⟩,
        .addPacket (packet 0 0), .addPacket (packet 1 64), .setState .buffering false false,
        .tryDecodeBlock ⟨64, false, false, false⟩, .setState .inactive false true,
        .handleUnderrun, .addPacket (packet 0 0), .addPacket (packet 1 64),
        .tryDecodeBlock ⟨64, false, false, true⟩]
    (as.foldl SourceDesc.step {}).decoded.map (·.absoluteSamplePosition) = [0, 0] := by
  decide +kernel

end Aoo.Stream
