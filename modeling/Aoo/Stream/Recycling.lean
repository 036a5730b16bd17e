import Aoo.Stream.Pacing

/-!
# Blocks in used slots

A block that is new should not remember the block that had its slot before. A placeholder
forgets, but a block that starts with a packet does not: `init` compares the number of the
packet with itself, and keeps the number of tries and the time of the last one.

**Main result** (`recycled_iff`): in every run, new blocks start without tries exactly if their
slots have none, and then the resent blocks that are counted have been requested, each since
it got its slot.
-/

namespace Aoo.Stream

open Lib

namespace SourceDesc

/-! ## Packets and the block they are for -/

/-- The slot of the block that is there. -/
def found (s : SourceDesc) (d : NetPacket) : Option Nat := (s.located d).bind (·.2)

/-- A block that is there is found in the buffer as it is: one that has been reset has none. -/
theorem located_found {s t : SourceDesc} {d : NetPacket} {slot : Nat}
    (h : s.located d = some (t, some slot)) : t = s := by
  obtain ⟨hfind, rfl | rfl⟩ := located_cases h
  · rfl
  · have hnone : s.jitterBuffer.reset.find d.sequence = none := rfl
    cases hfind.trans hnone

/-- A packet of a known block goes to its slot. -/
theorem addPacket_found {s : SourceDesc} {d : NetPacket} {slot : Nat} (h : s.found d = some slot) :
    (s.addPacket d).1 = (s.updateBlock d slot).1 ∧
      (s.jitterBuffer.slot slot).sequence = d.sequence := by
  obtain ⟨⟨t, r⟩, hlocated, hr⟩ := Option.bind_eq_some_iff.mp h
  obtain rfl : r = some slot := hr
  have hfind := (located_some hlocated).2
  obtain rfl := located_found hlocated
  rw [addPacket_eq, hlocated]
  exact ⟨rfl, JitterBuffer.find_sequence hfind.symm⟩

/-- A packet of a new block opens the slot at the head. -/
theorem addPacket_opened {s u : SourceDesc} {d : NetPacket} (h : s.opened d = some u) :
    (s.addPacket d).1 =
      (u.pushBlock d.sequence (·.init d.toDataPacket)).addFrame d u.jitterBuffer.head := by
  unfold opened at h
  split at h
  next t hlocated =>
    split at h
    next => cases h
    next hnew =>
      cases h
      rw [addPacket_eq, hlocated]
      dsimp only
      unfold addBlock
      rw [if_neg hnew]
  next => cases h

/-- The room for a new block is made as before. -/
theorem Seated.opened {P : SlotProperty} {s u : SourceDesc} {d : NetPacket} (h : s.Seated P)
    (hopen : s.opened d = some u) : u.Seated P := by
  unfold SourceDesc.opened at hopen
  split at hopen
  next t hlocated =>
    split at hopen
    next => cases hopen
    next =>
      cases hopen
      exact (h.calm (located_some hlocated).1).makeRoom _
  next => cases hopen

/-- The block in the slot, when the frame of the packet has been added. -/
theorem slot_addFrame {s : SourceDesc} {slot : Nat} (hslot : slot < s.jitterBuffer.capacity)
    (d : NetPacket) :
    (s.addFrame d slot).jitterBuffer.slot slot = (s.jitterBuffer.slot slot).take d := by
  unfold addFrame ReceivedBlock.take
  split
  next => exact JitterBuffer.slot_modify_self hslot _
  next => rfl

/-- A frame that is taken changes no tries. -/
theorem take_tries (b : ReceivedBlock) (d : NetPacket) :
    b.SameTries (b.take d) ∧ (b.take d).resent = b.resent := by
  unfold ReceivedBlock.take
  split
  next =>
    refine ⟨b.sameTries_addFrame .., ?_⟩
    unfold ReceivedBlock.addFrame
    rfl
  next => exact ⟨⟨rfl, rfl, rfl⟩, rfl⟩

/-! ## The counter -/

/-- Only a block with tries is counted. -/
theorem resent_noteResent (s : SourceDesc) (d : NetPacket) (slot : Nat) :
    (s.noteResent d slot).stats.resent = s.stats.resent ∨
      (s.noteResent d slot).stats.resent = s.stats.resent + 1 ∧
        (s.jitterBuffer.slot slot).numTries > 0 := by
  unfold noteResent
  split
  next h =>
    dsimp only
    split
    next => exact Or.inl rfl
    next => exact Or.inr ⟨rfl, h.2⟩
  next => exact Or.inl rfl

/-- Only a block that was requested is counted as resent. -/
theorem resent_updateBlock {s : SourceDesc} {d : NetPacket} {slot : Nat}
    (hslot : slot < s.jitterBuffer.capacity) :
    (s.updateBlock d slot).1.stats.resent = s.stats.resent ∨
      (s.updateBlock d slot).1.stats.resent = s.stats.resent + 1 ∧
        (s.jitterBuffer.slot slot).numTries > 0 := by
  unfold updateBlock
  dsimp only
  split
  next =>
    -- `init` forgets the mark but not the tries
    have hnote := resent_noteResent
      { s with jitterBuffer := s.jitterBuffer.modify slot (·.init d.toDataPacket) } d slot
    dsimp only at hnote
    rw [JitterBuffer.slot_modify_self hslot] at hnote
    rw [(beside_addFrame ..).stats]
    exact hnote
  next =>
    split
    next => exact Or.inl rfl
    next =>
      split
      next => exact Or.inl rfl
      next =>
        rw [(beside_addFrame ..).stats]
        exact resent_noteResent (s.record _) d slot

/-- Requests leave the counts alone. -/
theorem stats_check (s : SourceDesc) (i : ResendInput) : (s.check i).stats = s.stats := by
  obtain ⟨due, heq⟩ := s.check_eq i
  rw [heq]
  exact (beside_checkMissingBlocks ..).stats

/-- A new block counts nothing yet. -/
theorem stats_addPacket {s : SourceDesc} {d : NetPacket} (h : s.found d = none) :
    (s.addPacket d).1.stats = s.stats := by
  rw [addPacket_eq]
  unfold found at h
  cases hlocated : s.located d with
  | none => rfl
  | some r =>
    obtain ⟨t, slot⟩ := r
    rw [hlocated] at h
    obtain rfl : slot = none := h
    obtain ⟨streamState, hbeside⟩ := t.beside_addBlock d
    refine hbeside.stats.trans ?_
    obtain ⟨-, rfl | rfl⟩ := located_cases hlocated
    · rfl
    · rfl

theorem stats_update (s : SourceDesc) (u : UpdateArgs) : (s.update u).stats = s.stats := by
  unfold update
  split
  next => rfl
  next => rfl

theorem stats_restart (s : SourceDesc) (a : StartArgs) : (s.restart a).stats = s.stats := by
  have hhead : ∀ (t : SourceDesc) (seq : Int), ({ t with
      jitterBuffer := t.jitterBuffer.resetHead seq } : SourceDesc).stats = t.stats := fun _ _ => rfl
  exact (hhead _ _).trans (s.stats_update a.update)

theorem stats_handleStart (s : SourceDesc) (a : StartArgs) :
    (s.handleStart a).stats = s.stats := by
  unfold handleStart
  split
  next => rfl
  next =>
    dsimp only
    split
    next =>
      split
      next => exact stats_restart ..
      next => rfl
    next =>
      split
      next => exact stats_restart ..
      next => rfl

/-- Decoding counts no block as resent. -/
theorem resent_tryDecodeBlock (s : SourceDesc) (i : DecodeInput) :
    (s.tryDecodeBlock i).1.stats.resent = s.stats.resent := by
  obtain ⟨m, hdrain⟩ := s.tryDecodeBlock_drains i
  rw [hdrain.holds.resent, (s.retarget_records i.target).2]

/-- Only packets are counted. -/
theorem resent_step (s : SourceDesc) {a : SinkAction} (ha : ∀ d, a ≠ .addPacket d) :
    (s.step a).stats.resent = s.stats.resent := by
  cases a with
  | handleStart a => exact congrArg StreamStats.resent (s.stats_handleStart a)
  | update u =>
    rw [step]
    split
    next => exact congrArg StreamStats.resent (s.stats_update u)
    next => rfl
  | setState streamState stopped underrun =>
    rw [step]
    split
    next => rfl
    next => rfl
  | handleUnderrun =>
    rw [step]
    split
    next => rfl
    next => rfl
  | addPacket d => exact absurd rfl (ha d)
  | checkMissingBlocks resendEnabled limit due =>
    rw [step]
    split
    next => exact congrArg StreamStats.resent (s.beside_checkMissingBlocks ..).stats
    next => rfl
  | tryDecodeBlock i =>
    rw [step]
    split
    next => exact s.resent_tryDecodeBlock i
    next => rfl

end SourceDesc

/-! ## Runs -/

namespace PacedAction

/-- The packets that come while there is a decoder have the property. -/
def Packets (C : SourceDesc → NetPacket → Prop) (s : SourceDesc) : PacedAction → Prop
  | .sink (.addPacket d) _ => s.decoder.isSome = true → C s d
  | _ => True

/-- What the slot of a new block remembers of its last block: nothing. -/
def FreshSlot (s : SourceDesc) (d : NetPacket) : Prop :=
  ∀ u, s.opened d = some u → (u.jitterBuffer.slot u.jitterBuffer.head).numTries = 0 ∧
    (u.jitterBuffer.slot u.jitterBuffer.head).timestamp = 0

/-- The search for the block does not get behind the end of the vector. -/
def FindsInside (s : SourceDesc) (d : NetPacket) : Prop :=
  ∀ slot, s.found d = some slot → slot < s.jitterBuffer.capacity

/-- A block that has just been made for a packet. -/
structure Fresh (b : ReceivedBlock) (d : NetPacket) : Prop where
  sequence : b.sequence = d.sequence
  numTries : b.numTries = 0
  timestamp : b.timestamp = 0
  resent : b.resent = false

/-- A packet of a block that is not there makes a fresh one. -/
def StartsFresh (s : SourceDesc) (d : NetPacket) : Prop :=
  ∀ u, s.opened d = some u →
    Fresh ((s.addPacket d).1.jitterBuffer.slot u.jitterBuffer.head) d

/-- A block that is there, like a placeholder, keeps its number, its tries and their time. -/
def Kept (s : SourceDesc) (d : NetPacket) : Prop :=
  ∀ slot, s.found d = some slot →
    (s.jitterBuffer.slot slot).SameTries ((s.addPacket d).1.jitterBuffer.slot slot)

/-- Only packets are counted as resent, and only if their block has been requested since it got
its slot. -/
def CountsRequested (s : SourceDesc) (a : PacedAction) : Prop :=
  (step s a).stats.resent = s.stats.resent ∨
    (step s a).stats.resent = s.stats.resent + 1 ∧
      ∃ d h slot, a = .sink (.addPacket d) h ∧ s.found d = some slot ∧ s.askedAt slot ≠ []

/-- What should hold in every step. -/
structure Recycled (s : SourceDesc) (a : PacedAction) : Prop where
  startsFresh : Packets StartsFresh s a
  kept : Packets Kept s a
  countsRequested : CountsRequested s a

/-- A block with tries has been requested. -/
def accounted : SlotProperty where
  holds b ts := ReceivedBlock.numTries b > 0 → ts ≠ []
  congr h hold htries := hold (h.numTries ▸ htries)
  update _ _ _ := List.cons_ne_nil _ _
  placeholder _ _ htries := absurd htries (Nat.lt_irrefl 0)
  new htries := absurd htries (Nat.lt_irrefl 0)

/-- **A new block** is fresh exactly if its slot is. -/
theorem startsFresh_iff {P : SlotProperty} {s : SourceDesc} (h : s.Seated P) (d : NetPacket) :
    StartsFresh s d ↔ FreshSlot s d := by
  refine forall_congr' fun u => forall_congr' fun hopen => ?_
  have hplaced := (h.opened hopen).placed
  have hcap : u.jitterBuffer.head <
      (u.pushBlock d.sequence (·.init d.toDataPacket)).jitterBuffer.capacity := by
    have hsize := u.jitterBuffer.capacity_emplace d.sequence (·.init d.toDataPacket)
    exact hsize ▸ hplaced.1
  rw [SourceDesc.addPacket_opened hopen, SourceDesc.slot_addFrame hcap]
  have hslot : (u.pushBlock d.sequence (·.init d.toDataPacket)).jitterBuffer.slot
      u.jitterBuffer.head = (u.jitterBuffer.slot u.jitterBuffer.head).init d.toDataPacket :=
    JitterBuffer.slot_emplace_head hplaced ..
  rw [hslot]
  obtain ⟨htake, hresent⟩ := SourceDesc.take_tries
    ((u.jitterBuffer.slot u.jitterBuffer.head).init d.toDataPacket) d
  refine ⟨?_, ?_⟩
  · intro hfresh
    exact ⟨htake.numTries.symm.trans hfresh.numTries,
      htake.timestamp.symm.trans hfresh.timestamp⟩
  · intro ⟨htries, htime⟩
    exact ⟨htake.sequence, htake.numTries.trans htries, htake.timestamp.trans htime, hresent⟩

/-- A known block keeps its tries. -/
theorem kept {s : SourceDesc} {d : NetPacket} (hinside : FindsInside s d) : Kept s d := by
  intro slot hfound
  obtain ⟨hpacket, hsequence⟩ := SourceDesc.addPacket_found hfound
  rw [hpacket]
  exact (SourceDesc.calm_updateBlock hsequence).buffer.slot slot (hinside slot hfound)

/-- **One packet** is counted only if its block has been requested. -/
theorem counted_addPacket {s : SourceDesc} (h : s.Seated accounted) {d : NetPacket}
    (hinside : FindsInside s d) :
    (s.addPacket d).1.stats.resent = s.stats.resent ∨
      (s.addPacket d).1.stats.resent = s.stats.resent + 1 ∧
        ∃ slot, s.found d = some slot ∧ s.askedAt slot ≠ [] := by
  cases hfound : s.found d with
  | none => exact Or.inl (congrArg StreamStats.resent (SourceDesc.stats_addPacket hfound))
  | some slot =>
    have hslot := hinside slot hfound
    rw [(SourceDesc.addPacket_found hfound).1]
    rcases SourceDesc.resent_updateBlock (d := d) hslot with hsame | ⟨hcount, htries⟩
    · exact Or.inl hsame
    · exact Or.inr ⟨hcount, slot, rfl, h.remembers slot hslot htries⟩

/-- Each step opens only fresh slots, under the condition. -/
theorem recycled_step {s : SourceDesc} (h : s.Settled accounted) {a : PacedAction}
    (ha : Packets (fun s d => FreshSlot s d ∧ FindsInside s d) s a) : Recycled s a := by
  cases a with
  | check i =>
    refine ⟨trivial, trivial, Or.inl ?_⟩
    rw [step]
    split
    next => exact congrArg StreamStats.resent (s.stats_check i)
    next => rfl
  | sink a hcheck =>
    by_cases hpacket : ∃ d, a = .addPacket d
    · obtain ⟨d, rfl⟩ := hpacket
      refine ⟨?_, ?_, ?_⟩
      · intro hd
        exact (startsFresh_iff (h.seated hd) d).mpr (ha hd).1
      · intro hd
        exact kept (ha hd).2
      · unfold CountsRequested
        rw [step, SourceDesc.step]
        split
        next hd =>
          rcases counted_addPacket (h.seated hd) (ha hd).2 with hsame | ⟨hcount, slot, hslot⟩
          · exact Or.inl hsame
          · exact Or.inr ⟨hcount, d, hcheck, slot, rfl, hslot⟩
        next => exact Or.inl rfl
    · have hother : ∀ C, Packets C s (.sink a hcheck) := by
        intro C
        unfold Packets
        split
        next d _ heq => exact absurd ⟨d, by injection heq⟩ hpacket
        next => trivial
      exact ⟨hother _, hother _, Or.inl (s.resent_step fun d hd => hpacket ⟨d, hd⟩)⟩

/-- A step keeps account of the tries, under the condition. -/
theorem accounted_step {s : SourceDesc} (h : s.Settled accounted) {a : PacedAction}
    (ha : Packets FreshSlot s a) : (step s a).Settled accounted := by
  refine settled_step h fun hd d hcheck heq u hopen htries => ?_
  subst heq
  -- the slot has no tries that the new block could take over
  have hfresh : (u.jitterBuffer.slot u.jitterBuffer.head).numTries = 0 := (ha hd u hopen).1
  exact absurd hfresh (Nat.ne_of_gt htries)

/-- A weaker condition on packets. -/
theorem Packets.imp {C D : SourceDesc → NetPacket → Prop} {s : SourceDesc} {a : PacedAction}
    (h : Packets C s a) (himp : s.decoder.isSome = true → ∀ d, C s d → D s d) :
    Packets D s a := by
  unfold Packets at h ⊢
  split
  next d _ => exact fun hd => himp hd d (h hd)
  next => trivial

/-- **New blocks start fresh** exactly if their slots are fresh; and then, as long as nothing is
found behind the vector, placeholders keep what is known of them and only blocks that have been
requested are counted as resent. -/
theorem recycled_iff :
    ∀ as : List PacedAction,
      (StepsAll step (Packets StartsFresh) {} as ↔ StepsAll step (Packets FreshSlot) {} as) ∧
        (StepsAll step (Packets fun s d => FreshSlot s d ∧ FindsInside s d) {} as →
          StepsAll step Recycled {} as) := by
  intro as
  have hstart : ({} : SourceDesc).Settled accounted := SourceDesc.settled_start accounted
  have hfresh : ∀ s a, s.Settled accounted → (Packets FreshSlot s a ↔ Packets StartsFresh s a) := by
    intro s a h
    exact ⟨fun ha => ha.imp fun hd d => (startsFresh_iff (h.seated hd) d).mpr,
      fun ha => ha.imp fun hd d => (startsFresh_iff (h.seated hd) d).mp⟩
  refine ⟨?_, ?_⟩
  · exact (stepsAll_congr hfresh (fun s a h ha => accounted_step h ha) as hstart).symm
  · refine StepsAll.imp (fun s a h ha => recycled_step h ha) ?_ as hstart
    intro s a h ha
    exact accounted_step h (ha.imp fun _ _ hd => hd.1)

/-- A frame of block 4, which has two. -/
def splitBlock (frameIndex : Int) : NetPacket :=
  { wirelessBlock 4 with numFrames := 2, totalSize := 384, frameIndex }

/-- A stream with a buffer for three blocks: block 1 is missing and has been requested, then the
blocks are decoded, and the slots are used again for blocks 3, 4 and 5. The second frame of
block 4 comes last. -/
def usedRun : List PacedAction :=
  .sink (.handleStart ⟨7, 0, none, some 64, true, ⟨0, 3, 1, 3, [], Nat.one_pos⟩,
      SourceDesc.StartArgs.range_zero⟩) nofun ::
    [0, 2].map (fun seq => .sink (.addPacket (wirelessBlock seq)) (wirelessBlock_ne_check seq)) ++
    .check ⟨true, 16, 1 / 20, 1, fun _ => 1 / 1000⟩ ::
    List.replicate 3 (.sink (.tryDecodeBlock ⟨0, false, false, true⟩) nofun) ++
    [wirelessBlock 3, splitBlock 0, wirelessBlock 5, splitBlock 1].map
      fun d => .sink (.addPacket d) nofun

/-- Block 4 starts with the tries of block 1, and its second frame is counted as resent although
nobody has asked for it. -/
theorem tries_inherited :
    ¬ StepsAll step Recycled {} usedRun ∧ ¬ StepsAll step CountsRequested {} usedRun := by
  refine ⟨?_, ?_⟩
  · intro h
    have hlast := (stepsAll_iff.mp h (usedRun.take 8) (.sink (.addPacket (splitBlock 0)) nofun)
      ⟨usedRun.drop 9, rfl⟩).startsFresh
    have hdecoder : ((usedRun.take 8).foldl step {}).decoder.isSome = true := by decide +kernel
    have hhead : (((usedRun.take 8).foldl step {}).opened (splitBlock 0)).map
        (·.jitterBuffer.head) = some 1 := by decide +kernel
    have htries : ((((usedRun.take 8).foldl step {}).addPacket (splitBlock 0)).1.jitterBuffer.slot
        1).numTries = 1 := by decide +kernel
    obtain ⟨u, hopen, hslot⟩ := Option.map_eq_some_iff.mp hhead
    have hfresh := (hlast hdecoder u hopen).numTries
    rw [hslot, htries] at hfresh
    cases hfresh
  · intro h
    have hlast := stepsAll_iff.mp h (usedRun.take 10) (.sink (.addPacket (splitBlock 1)) nofun)
      ⟨[], rfl⟩
    have hbefore : ((usedRun.take 10).foldl step {}).stats.resent = 0 := by decide +kernel
    have hafter : (step ((usedRun.take 10).foldl step {})
        (.sink (.addPacket (splitBlock 1)) nofun)).stats.resent = 1 := by decide +kernel
    have hfound : ((usedRun.take 10).foldl step {}).found (splitBlock 1) = some 1 := by
      decide +kernel
    have hasked : ((usedRun.take 10).foldl step {}).askedAt 1 = [] := by decide +kernel
    rcases hlast with hsame | ⟨-, d, hcheck, slot, heq, hslot, hask⟩
    · rw [hbefore, hafter] at hsame
      cases hsame
    · obtain rfl : splitBlock 1 = d := SinkAction.addPacket.inj (PacedAction.sink.inj heq)
      rw [hfound] at hslot
      cases hslot
      exact hask hasked

end PacedAction

end Aoo.Stream
