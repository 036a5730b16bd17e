import Aoo.Stream.Depth

/-!
# What slots remember

A slot of the jitter buffer outlives its blocks: what is popped or cleared leaves its number of
tries and the time of the last one behind. `Calm` says that nothing of this changes. Beside
that a slot gets another block (`pushBlock`), a block is requested (`ask`), or the buffer gets
another size; `settled_step` has the rule for all of them, for a property of a block and of
the times at which it has been requested since it got its slot.
-/

namespace Aoo.Stream

open Lib

/-! ## Calm changes -/

/-- The number and what is known of requests stay. -/
structure ReceivedBlock.SameTries (b b' : ReceivedBlock) : Prop where
  sequence : b'.sequence = b.sequence
  numTries : b'.numTries = b.numTries
  timestamp : b'.timestamp = b.timestamp

/-- A frame does not change the tries of its block. -/
theorem ReceivedBlock.sameTries_addFrame (b : ReceivedBlock) (index : Int) (frame : List UInt8) :
    b.SameTries (b.addFrame index frame) := by
  unfold ReceivedBlock.addFrame
  exact ⟨rfl, rfl, rfl⟩

namespace JitterBuffer

/-- Head and tail are slots of the vector. -/
def Placed (b : JitterBuffer) : Prop := b.head < b.capacity ∧ b.tail < b.capacity

/-- No slot gets another block, and no block is requested. -/
structure Calm (b b' : JitterBuffer) : Prop where
  capacity : b'.capacity = b.capacity
  placed : b.Placed → b'.Placed
  slot : ∀ i < b.capacity, (b.slot i).SameTries (b'.slot i)

variable {b b' b'' : JitterBuffer}

/-- Nothing happens to the slots. -/
theorem Calm.refl (b : JitterBuffer) : b.Calm b := ⟨rfl, id, fun _ _ => ⟨rfl, rfl, rfl⟩⟩

/-- Two steps that only clear or fill slots are one. -/
theorem Calm.trans (h : b.Calm b') (h' : b'.Calm b'') : b.Calm b'' := by
  refine ⟨h'.capacity.trans h.capacity, fun hp => h'.placed (h.placed hp), ?_⟩
  intro i hi
  have h₁ := h.slot i hi
  have h₂ := h'.slot i (by rwa [h.capacity])
  exact ⟨h₂.sequence.trans h₁.sequence, h₂.numTries.trans h₁.numTries,
    h₂.timestamp.trans h₁.timestamp⟩

/-- A changed slot moves neither head nor tail. -/
theorem placed_modify (h : b.Placed) (j : Nat) (f : ReceivedBlock → ReceivedBlock) :
    (b.modify j f).Placed := by
  unfold Placed
  rw [(SourceDesc.modify_frame b j f).2]
  unfold modify
  split
  next => exact h
  next => exact h

/-- A change of one slot that keeps its tries. -/
theorem calm_modify (j : Nat) {f : ReceivedBlock → ReceivedBlock}
    (hf : (b.slot j).SameTries (f (b.slot j))) : b.Calm (b.modify j f) := by
  refine ⟨(SourceDesc.modify_frame b j f).2, fun hp => placed_modify hp j f, ?_⟩
  intro i hi
  by_cases hij : i = j
  · subst hij
    rw [slot_modify_self hi]
    exact hf
  · rw [slot_modify_ne hij]
    exact ⟨rfl, rfl, rfl⟩

/-- A popped block is cleared, which forgets no tries. -/
theorem calm_pop (b : JitterBuffer) : b.Calm b.pop := by
  refine ⟨b.capacity_pop, ?_, ?_⟩
  · intro hp
    refine ⟨by rw [b.capacity_pop]; exact hp.1, ?_⟩
    rw [b.capacity_pop]
    show (if b.tail + 1 = b.capacity then 0 else b.tail + 1) < b.capacity
    have := hp.2
    split
    · omega
    · omega
  · intro i hi
    rw [slot_of_lt hi, slot_of_lt (by rwa [b.capacity_pop])]
    show (b.data.getD i {}).SameTries ((b.data.set b.tail (b.slot b.tail).clear).getD i {})
    rw [List.getD_eq_getElem?_getD, List.getD_eq_getElem?_getD]
    -- what is popped is cleared, and clearing forgets no tries
    by_cases htail : b.tail = i
    · rw [htail, List.getElem?_set_self hi, slot_of_lt hi, List.getD_eq_getElem?_getD]
      exact ⟨rfl, rfl, rfl⟩
    · rw [List.getElem?_set_ne htail]
      exact ⟨rfl, rfl, rfl⟩

/-- `reset` clears every slot. -/
theorem slot_reset {i : Nat} (hi : i < b.capacity) : b.reset.slot i = (b.slot i).clear := by
  rw [slot_of_lt hi, slot_of_lt (by rwa [b.capacity_reset])]
  show (b.data.map (·.clear)).getD i {} = (b.data.getD i {}).clear
  rw [List.getD_eq_getElem?_getD, List.getD_eq_getElem?_getD, List.getElem?_map,
    List.getElem?_eq_getElem hi]
  rfl

/-- So it forgets no tries. -/
theorem calm_reset (b : JitterBuffer) : b.Calm b.reset := by
  refine ⟨b.capacity_reset, ?_, ?_⟩
  · intro hp
    have hpos : 0 < b.reset.capacity := by
      rw [b.capacity_reset]
      exact Nat.zero_lt_of_lt hp.1
    exact ⟨hpos, hpos⟩
  · intro i hi
    rw [slot_reset hi]
    exact ⟨rfl, rfl, rfl⟩

theorem calm_advanceMissing (b : JitterBuffer) : b.Calm b.advanceMissing := by
  unfold advanceMissing
  split
  next => exact ⟨rfl, id, fun _ _ => ⟨rfl, rfl, rfl⟩⟩
  next => exact .refl b

/-! ## Pushes and sizes -/

/-- A new block goes to the slot at the head. -/
theorem slot_emplace_head (hp : b.Placed) (seq : Int) (f : ReceivedBlock → ReceivedBlock) :
    (b.emplace seq f).slot b.head = f (b.slot b.head) := by
  have hhead : b.head < (b.push seq).2.capacity := hp.1
  exact slot_modify_self hhead f

/-- The other slots stay as they are. -/
theorem slot_emplace_ne {i : Nat} (hi : i ≠ b.head) (seq : Int)
    (f : ReceivedBlock → ReceivedBlock) : (b.emplace seq f).slot i = b.slot i :=
  slot_modify_ne hi f

/-- The head stays inside the buffer. -/
theorem placed_emplace (hp : b.Placed) (seq : Int) (f : ReceivedBlock → ReceivedBlock) :
    (b.emplace seq f).Placed := by
  refine placed_modify (b := (b.push seq).2) ⟨?_, hp.2⟩ _ f
  show (if b.head + 1 = b.capacity then 0 else b.head + 1) < b.capacity
  have := hp.1
  split
  · omega
  · omega

/-- What a slot holds after a change of size. -/
theorem slot_resize {n i : Nat} (hi : i < n) (b : JitterBuffer) (spare : List ReceivedBlock) :
    (b.resize n spare).slot i = if i < b.capacity then (b.slot i).clear else {} := by
  rw [slot_of_lt (by rwa [capacity_resize])]
  have hdata : (b.resize n spare).data = b.reset.data.take n ++
      List.replicate (n - b.reset.data.length) ({} : ReceivedBlock) := rfl
  have hlen : b.reset.data.length = b.capacity := b.capacity_reset
  rw [hdata, List.getD_eq_getElem?_getD]
  split
  next hcap =>
    rw [List.getElem?_append_left (by rw [List.length_take]; omega), List.getElem?_take_of_lt hi,
      ← List.getD_eq_getElem?_getD, ← slot_of_lt (by rwa [b.capacity_reset])]
    exact slot_reset hcap
  next hcap =>
    rw [List.getElem?_append_right (by rw [List.length_take]; omega), List.length_take,
      List.getElem?_replicate, if_pos (by omega)]
    rfl

/-- After `resize` head and tail are at the first slot. -/
theorem placed_resize {n : Nat} (hn : 0 < n) (b : JitterBuffer) (spare : List ReceivedBlock) :
    (b.resize n spare).Placed := by
  have hpos : 0 < (b.resize n spare).capacity := by rwa [capacity_resize]
  exact ⟨hpos, hpos⟩

/-! ## Iteration -/

/-- The iterator goes round in the vector. -/
theorem walk_eq_map : ∀ (fuel : Nat) {i : Nat}, i < b.capacity →
    ∃ m ≤ fuel, b.walk fuel i = (List.range m).map fun k => (i + k) % b.capacity := by
  intro fuel
  induction fuel with
  | zero =>
    intro i _
    exact ⟨0, Nat.le_refl _, rfl⟩
  | succ fuel ih =>
    intro i hi
    rw [walk, next_eq hi]
    split
    next =>
      refine ⟨1, Nat.succ_pos fuel, ?_⟩
      rw [List.range_one, List.map_singleton, Nat.add_zero, Nat.mod_eq_of_lt hi]
    next =>
      have hcap : 0 < b.capacity := Nat.zero_lt_of_lt hi
      obtain ⟨m, hm, hrest⟩ := ih (Nat.mod_lt (i + 1) hcap)
      refine ⟨m + 1, Nat.succ_le_succ hm, ?_⟩
      -- the rest of the walk starts one slot further on
      rw [hrest, List.range_succ_eq_map, List.map_cons, List.map_map, Nat.add_zero i,
        Nat.mod_eq_of_lt hi]
      refine congrArg (i :: ·) (List.map_congr_left fun k _ => ?_)
      show ((i + 1) % b.capacity + k) % b.capacity = (i + (k + 1)) % b.capacity
      rw [Nat.mod_add_mod, Nat.add_assoc, Nat.add_comm 1]

/-- All slots are in the vector, and none comes twice. -/
theorem indices_placed (hp : b.Placed) : (∀ i ∈ b.indices, i < b.capacity) ∧ b.indices.Nodup := by
  have hcap : 0 < b.capacity := Nat.zero_lt_of_lt hp.1
  unfold indices
  split
  next => exact ⟨fun i hi => absurd hi List.not_mem_nil, List.nodup_nil⟩
  next =>
    obtain ⟨m, hm, heq⟩ := @walk_eq_map b b.capacity b.tail hp.2
    rw [heq]
    refine ⟨?_, ?_⟩
    · intro i hi
      obtain ⟨k, -, rfl⟩ := List.mem_map.mp hi
      exact Nat.mod_lt _ hcap
    · refine List.Nodup.map_on ?_ List.nodup_range
      intro j hj k hk hjk
      have hj' := List.mem_range.mp hj
      have hk' := List.mem_range.mp hk
      by_contra hne
      exact slot_ne (by omega) (by omega) hne hjk

/-- What is found has the number. -/
theorem find_sequence {seq : Int} {j : Nat} (hf : b.find seq = some j) :
    (b.slot j).sequence = seq := by
  have hscan : ∀ {first last : Nat}, b.scan seq first last = some j → (b.slot j).sequence = seq :=
    fun h => (scan_some h).2.2
  have hdo : ∀ {first last : Nat}, b.doFind seq first last = some j →
      (b.slot j).sequence = seq := by
    intro first last h
    unfold doFind at h
    dsimp only at h
    split at h
    next hc =>
      cases h
      exact hc.2
    next => cases h
  unfold find at hf
  split at hf
  next => cases hf
  next =>
    split at hf
    next hback =>
      cases hf
      exact hback
    next =>
      split at hf
      next =>
        split at hf
        next => exact hscan hf
        next =>
          rcases Option.or_eq_some_iff.mp hf with hf | ⟨-, hf⟩
          · exact hscan hf
          · exact hscan hf
      next =>
        split at hf
        next => exact hdo hf
        next =>
          rcases Option.or_eq_some_iff.mp hf with hf | ⟨-, hf⟩
          · exact hdo hf
          · exact hdo hf

end JitterBuffer

/-! ## Properties of slots -/

/-- A property of a block, given the times at which it has been requested since it got its slot.
It is about tries and times only, and holds for a block that has just been requested. -/
structure SlotProperty where
  holds : ReceivedBlock → List ℚ → Prop
  congr : ∀ {b b' : ReceivedBlock} {ts : List ℚ}, b.SameTries b' → holds b ts → holds b' ts
  update : ∀ (b : ReceivedBlock) (t : ℚ), holds (b.update t) [t]
  placeholder : ∀ (b : ReceivedBlock) (seq : Int), holds (b.initPlaceholder seq) []
  new : holds {} []

namespace SourceDesc

/-- The times at which the block of a slot has been requested. -/
def askedAt (s : SourceDesc) (slot : Nat) : List ℚ :=
  (s.asked.filter fun r => r.1 = slot).map (·.2)

/-- All slots of the vector have the property. -/
def Remembers (s : SourceDesc) (P : SlotProperty) : Prop :=
  ∀ i < s.jitterBuffer.capacity, P.holds (s.jitterBuffer.slot i) (s.askedAt i)

/-- With a decoder there is a buffer. -/
structure Seated (s : SourceDesc) (P : SlotProperty) : Prop where
  placed : s.jitterBuffer.Placed
  remembers : s.Remembers P

/-- No slot gets another block, and no block is requested. -/
structure Calm (s t : SourceDesc) : Prop where
  buffer : s.jitterBuffer.Calm t.jitterBuffer
  asked : t.asked = s.asked

section

variable {s t u : SourceDesc} {P : SlotProperty}

theorem Calm.refl (s : SourceDesc) : s.Calm s := ⟨.refl _, rfl⟩

theorem Calm.trans (h : s.Calm t) (h' : t.Calm u) : s.Calm u :=
  ⟨h.buffer.trans h'.buffer, h'.asked.trans h.asked⟩

/-- What is known of the slots outlasts a calm step. -/
theorem Remembers.calm (h : s.Remembers P) (hc : s.Calm t) : t.Remembers P := by
  intro i hi
  rw [hc.buffer.capacity] at hi
  rw [askedAt, hc.asked]
  exact P.congr (hc.buffer.slot i hi) (h i hi)

theorem Seated.calm (h : s.Seated P) (hc : s.Calm t) : t.Seated P :=
  ⟨hc.buffer.placed h.placed, h.remembers.calm hc⟩

/-- The requests for the old block of a slot are forgotten. -/
theorem filter_otherAsked_self (s : SourceDesc) (slot : Nat) :
    (s.otherAsked slot).filter (fun r => r.1 = slot) = [] := by
  unfold otherAsked
  rw [List.filter_filter, List.filter_eq_nil_iff]
  intro r _
  by_cases hr : r.1 = slot
  · simp [hr]
  · simp [hr]

/-- Those for other slots are kept. -/
theorem filter_otherAsked_ne (s : SourceDesc) {i slot : Nat} (hi : i ≠ slot) :
    (s.otherAsked slot).filter (fun r => r.1 = i) = s.asked.filter fun r => r.1 = i := by
  unfold otherAsked
  rw [List.filter_filter]
  refine List.filter_congr fun r _ => ?_
  by_cases hr : r.1 = i
  · simp [hr, hi]
  · simp [hr]

/-- A slot gets another block. -/
theorem Seated.pushBlock (h : s.Seated P) {seq : Int} {f : ReceivedBlock → ReceivedBlock}
    (hnew : P.holds (f (s.jitterBuffer.slot s.jitterBuffer.head)) []) :
    (s.pushBlock seq f).Seated P := by
  refine ⟨JitterBuffer.placed_emplace h.placed seq f, ?_⟩
  intro i hi
  have hcap : (s.pushBlock seq f).jitterBuffer.capacity = s.jitterBuffer.capacity :=
    s.jitterBuffer.capacity_emplace seq f
  rw [hcap] at hi
  show P.holds ((s.jitterBuffer.emplace seq f).slot i)
    (((s.otherAsked s.jitterBuffer.head).filter fun r => r.1 = i).map (·.2))
  by_cases hhead : i = s.jitterBuffer.head
  · rw [hhead, JitterBuffer.slot_emplace_head h.placed, s.filter_otherAsked_self]
    exact hnew
  · rw [JitterBuffer.slot_emplace_ne hhead, s.filter_otherAsked_ne hhead]
    exact h.remembers i hi

/-- The block in a slot is requested. -/
def ask (s : SourceDesc) (slot : Nat) : SourceDesc :=
  { s with
    jitterBuffer := s.jitterBuffer.modify slot (·.update s.elapsedTime)
    asked := (slot, s.elapsedTime) :: s.otherAsked slot
    dataRequests := s.dataRequests ++ blockRequests (s.jitterBuffer.slot slot)
    calls := (blockCalls (s.jitterBuffer.slot slot)).reverse ++ s.calls }

/-- A request is noted in the block and in the record alike. -/
theorem Seated.ask (h : s.Seated P) (slot : Nat) : (s.ask slot).Seated P := by
  refine ⟨JitterBuffer.placed_modify h.placed slot _, ?_⟩
  intro i hi
  have hcap : (s.ask slot).jitterBuffer.capacity = s.jitterBuffer.capacity :=
    (modify_frame _ _ _).2
  rw [hcap] at hi
  show P.holds ((s.jitterBuffer.modify slot (·.update s.elapsedTime)).slot i)
    ((((slot, s.elapsedTime) :: s.otherAsked slot).filter fun r => r.1 = i).map (·.2))
  rw [List.filter_cons]
  by_cases hslot : i = slot
  · subst hslot
    rw [JitterBuffer.slot_modify_self hi, if_pos (decide_eq_true rfl), s.filter_otherAsked_self]
    exact P.update _ _
  · rw [JitterBuffer.slot_modify_ne hslot, s.filter_otherAsked_ne hslot,
      if_neg (by simpa using Ne.symm hslot)]
    exact h.remembers i hi

/-! ## Packets -/

/-- Where a packet goes: to the block in a slot, or to none that is there. -/
def located (s : SourceDesc) (d : NetPacket) : Option (SourceDesc × Option Nat) :=
  if d.streamId ≠ s.streamId then none
  else if s.lowLatency.isSome ∧ d.absoluteSamplePosition + UInt64.ofNat d.blockFrames.toNat ≤
      s.lastAbsoluteSamplePosition then none
  else (s.checkWrap d.sequence).map fun s => (s, s.jitterBuffer.find d.sequence)

/-- A packet in two parts: where its block is, and what happens there. -/
theorem addPacket_eq (s : SourceDesc) (d : NetPacket) :
    s.addPacket d = match s.located d with
      | none => (s, false)
      | some (s, none) => s.addBlock d
      | some (s, some slot) => s.updateBlock d slot := by
  unfold addPacket located
  split
  next => rfl
  next =>
    split
    next => rfl
    next =>
      cases s.checkWrap d.sequence with
      | none => rfl
      | some t =>
        dsimp only [Option.map_some]
        cases t.jitterBuffer.find d.sequence with
        | none => rfl
        | some slot => rfl

/-- The state in which a packet opens a block, in the slot at the head. -/
def opened (s : SourceDesc) (d : NetPacket) : Option SourceDesc :=
  match s.located d with
  | some (s, none) =>
    if d.sequence ≤ s.jitterBuffer.lastPushed then none else some (s.makeRoom d.sequence)
  | _ => none

/-- A frame goes into a block without another try. -/
theorem calm_addFrame (s : SourceDesc) (d : NetPacket) (slot : Nat) :
    s.Calm (s.addFrame d slot) := by
  unfold addFrame
  split
  next =>
    have hframe := @JitterBuffer.calm_modify s.jitterBuffer slot
      (·.addFrame d.frameIndex d.data) (ReceivedBlock.sameTries_addFrame ..)
    exact ⟨hframe, rfl⟩
  next => exact .refl s

/-- A block that is marked as resent keeps its tries. -/
theorem calm_noteResent (s : SourceDesc) (d : NetPacket) (slot : Nat) :
    s.Calm (s.noteResent d slot) := by
  unfold noteResent
  split
  next =>
    have hmark := @JitterBuffer.calm_modify s.jitterBuffer slot
      (fun b => { b with resent := true }) ⟨rfl, rfl, rfl⟩
    exact ⟨hmark, rfl⟩
  next => exact .refl s

/-- A known block keeps its number, and so its tries. -/
theorem calm_updateBlock {d : NetPacket} {slot : Nat}
    (hseq : (s.jitterBuffer.slot slot).sequence = d.sequence) :
    s.Calm (s.updateBlock d slot).1 := by
  unfold updateBlock
  dsimp only
  split
  next =>
    -- a placeholder: the number is the same, tries and time stay
    have hbuffer := @JitterBuffer.calm_modify s.jitterBuffer slot (·.init d.toDataPacket)
      ⟨hseq.symm, rfl, rfl⟩
    have hinit : s.Calm { s with
        jitterBuffer := s.jitterBuffer.modify slot (·.init d.toDataPacket) } := ⟨hbuffer, rfl⟩
    exact (hinit.trans (calm_noteResent _ d slot)).trans (calm_addFrame _ d slot)
  next =>
    split
    next => exact .refl s
    next =>
      have hrecord : ∀ c, s.Calm (s.record c) := fun c => ⟨.refl _, rfl⟩
      split
      next => exact hrecord _
      next => exact ((hrecord _).trans (calm_noteResent _ d slot)).trans (calm_addFrame _ d slot)

/-- A packet is located in the buffer as it is, or in one that has been reset. -/
theorem located_cases {d : NetPacket} {slot : Option Nat} (h : s.located d = some (t, slot)) :
    slot = t.jitterBuffer.find d.sequence ∧
      (t = s ∨ t = { s with jitterBuffer := s.jitterBuffer.reset }) := by
  unfold located at h
  split at h
  next => cases h
  next =>
    split at h
    next => cases h
    next =>
      obtain ⟨v, hv, heq⟩ := Option.map_eq_some_iff.mp h
      obtain ⟨rfl, hslot⟩ := Prod.mk.inj heq
      refine ⟨hslot.symm, ?_⟩
      unfold checkWrap at hv
      split at hv
      next =>
        split at hv
        next => exact Or.inr (Option.some.inj hv).symm
        next => cases hv
      next => exact Or.inl (Option.some.inj hv).symm

/-- What is known of the state in which a packet is located. -/
theorem located_some {d : NetPacket} {slot : Option Nat} (h : s.located d = some (t, slot)) :
    s.Calm t ∧ slot = t.jitterBuffer.find d.sequence := by
  obtain ⟨hfind, rfl | rfl⟩ := located_cases h
  · exact ⟨.refl _, hfind⟩
  · exact ⟨⟨s.jitterBuffer.calm_reset, rfl⟩, hfind⟩

/-- Each placeholder is new in its slot. -/
theorem Seated.fillGaps : ∀ (n : Nat) (seq : Int) {s : SourceDesc}, s.Seated P →
    (s.fillGaps seq n).Seated P := by
  intro n
  induction n with
  | zero =>
    intro seq s h
    exact h
  | succ n ih =>
    intro seq s h
    exact ih (seq + 1) (h.pushBlock (P.placeholder _ seq))

/-- Room for a block is made by placeholders, or by clearing the buffer. -/
theorem Seated.makeRoom (h : s.Seated P) (seq : Int) : (s.makeRoom seq).Seated P := by
  unfold SourceDesc.makeRoom
  dsimp only
  split
  next =>
    split
    next => exact h.calm ⟨s.jitterBuffer.calm_reset, rfl⟩
    next => exact h.fillGaps _ _
  next => exact h

/-- Packets keep the property if the block that they open has it. -/
theorem Seated.addPacket (h : s.Seated P) {d : NetPacket}
    (hopen : ∀ u, s.opened d = some u →
      P.holds ((u.jitterBuffer.slot u.jitterBuffer.head).init d.toDataPacket) []) :
    (s.addPacket d).1.Seated P := by
  rw [addPacket_eq]
  unfold opened at hopen
  cases hlocated : s.located d with
  | none => exact h
  | some r =>
    obtain ⟨t, slot⟩ := r
    obtain ⟨hcalm, hfind⟩ := located_some hlocated
    rw [hlocated] at hopen
    cases slot with
    | some slot =>
      exact (h.calm hcalm).calm (calm_updateBlock (JitterBuffer.find_sequence hfind.symm))
    | none =>
      dsimp only at hopen ⊢
      unfold addBlock
      split
      next => exact h.calm hcalm
      next hnew =>
        -- the new block gets the slot at the head, behind the gaps
        rw [if_neg hnew] at hopen
        have hroom := (h.calm hcalm).makeRoom d.sequence
        exact (hroom.pushBlock (hopen _ rfl)).calm (calm_addFrame _ _ _)

/-! ## The other actions -/

/-- Decoding only pops blocks. -/
theorem Drains.calm {w m : Bool} (h : Drains w s m t) : s.jitterBuffer.Calm t.jitterBuffer := by
  induction h with
  | refl => exact .refl _
  | keep _ hq hj hp ih => exact hj ▸ ih
  | miss _ hq hj hp ih => exact hj ▸ ih
  | reset _ hq hj hp ih => exact hj ▸ ih.trans (JitterBuffer.calm_reset _)
  | pop _ hq hpos hj hp ih => exact hj ▸ ih.trans (JitterBuffer.calm_pop _)
  | advance _ hq hempty hj hp ih => exact hj ▸ ih.trans (JitterBuffer.calm_advanceMissing _)
  | decode _ hk hpos hcomplete hj hc hd hp ih => exact hj ▸ ih.trans (JitterBuffer.calm_pop _)

/-- Another latency changes no records. -/
theorem retarget_records (s : SourceDesc) (target : UInt32) :
    (s.retarget target).asked = s.asked ∧ (s.retarget target).stats = s.stats := by
  unfold retarget
  split
  next => exact ⟨rfl, rfl⟩
  next =>
    split
    next => exact ⟨rfl, rfl⟩
    next => exact ⟨rfl, rfl⟩

/-- `try_decode_block` makes no requests. -/
theorem calm_tryDecodeBlock (s : SourceDesc) (i : DecodeInput) :
    s.Calm (s.tryDecodeBlock i).1 := by
  obtain ⟨m, hdrain⟩ := s.tryDecodeBlock_drains i
  refine ⟨?_, hdrain.holds.asked.trans (s.retarget_records i.target).1⟩
  have hcalm := Drains.calm hdrain
  rwa [(s.retarget_frame i.target).1] at hcalm

/-- The loop over the blocks notes each request. -/
theorem Seated.requestBlocks (limit : Int) :
    ∀ (l : List (Nat × Bool)) (resent : Nat) {s : SourceDesc}, s.Seated P →
      (SourceDesc.requestBlocks limit l resent s).Seated P := by
  intro l
  induction l with
  | nil =>
    intro resent s h
    exact h
  | cons p l ih =>
    intro resent s h
    obtain ⟨slot, due⟩ := p
    rw [SourceDesc.requestBlocks]
    dsimp only
    split
    next =>
      have hask := h.ask slot
      split
      next => exact hask
      next => exact ih (resent + 1) hask
    next => exact ih resent h

/-- `check_missing_blocks` notes what it asks for. -/
theorem Seated.checkMissingBlocks (h : s.Seated P) (resendEnabled : Bool) (limit : Int)
    (due : List Bool) : (s.checkMissingBlocks resendEnabled limit due).Seated P := by
  unfold SourceDesc.checkMissingBlocks
  split
  next => exact h
  next =>
    split
    next => exact h
    next => exact h.requestBlocks _ _ _

/-- A buffer of another size. -/
theorem Remembers.update (h : s.Remembers P) (hd : s.decoder.isSome = true) (a : UpdateArgs) :
    (s.update a).Seated P := by
  obtain ⟨n, hn⟩ := Option.isSome_iff_exists.mp hd
  unfold SourceDesc.update
  rw [hn]
  dsimp only
  generalize hlat : a.latency _ n = latency
  have hpos : 0 < max latency a.bufferBlocks := by
    have := a.pos
    have := UpdateArgs.minLatencyBlocks_le_latency a
    rw [← hlat]
    exact Nat.lt_of_lt_of_le (Nat.lt_of_lt_of_le a.pos (this _ n)) (Nat.le_max_left ..)
  generalize max latency a.bufferBlocks = capacity at hpos
  refine ⟨JitterBuffer.placed_resize hpos _ _, ?_⟩
  intro i hi
  have hcap : i < capacity := by
    have hsize := JitterBuffer.capacity_resize s.jitterBuffer capacity a.spare
    exact hsize ▸ hi
  show P.holds ((s.jitterBuffer.resize capacity a.spare).slot i)
    (((s.asked.filter fun r => r.1 < min s.jitterBuffer.capacity capacity).filter
      fun r => r.1 = i).map (·.2))
  rw [JitterBuffer.slot_resize hcap, List.filter_filter]
  split
  next hold =>
    -- the slot was there before
    have hsame : (s.asked.filter fun r =>
        decide (r.1 = i) && decide (r.1 < min s.jitterBuffer.capacity capacity)) =
        s.asked.filter fun r => r.1 = i := by
      refine List.filter_congr fun r _ => ?_
      by_cases hr : r.1 = i
      · simp [hr, hold, hcap]
      · simp [hr]
    have hclear : (s.jitterBuffer.slot i).SameTries (s.jitterBuffer.slot i).clear :=
      ⟨rfl, rfl, rfl⟩
    rw [hsame]
    exact P.congr hclear (h i hold)
  next hnew =>
    -- a new slot has no record, since those of the old vector are gone
    have hnone : (s.asked.filter fun r =>
        decide (r.1 = i) && decide (r.1 < min s.jitterBuffer.capacity capacity)) = [] := by
      rw [List.filter_eq_nil_iff]
      intro r _
      by_cases hr : r.1 = i
      · simp [hr, hnew]
      · simp [hr]
    rw [hnone]
    exact P.new

/-- A stream that starts takes the slots as they are. -/
theorem Remembers.restart (h : s.Remembers P) (hd : s.decoder.isSome = true) (a : StartArgs) :
    (s.restart a).Seated P := by
  have hhead : ∀ (t : SourceDesc) (seq : Int), t.Seated P →
      ({ t with jitterBuffer := t.jitterBuffer.resetHead seq } : SourceDesc).Seated P :=
    fun _ _ ht => ⟨ht.placed, ht.remembers⟩
  exact hhead _ _ (h.update hd a.update)

end

end SourceDesc

/-- What holds between two actions. -/
structure SourceDesc.Settled (s : SourceDesc) (P : SlotProperty) : Prop where
  placed : s.decoder.isSome = true → s.jitterBuffer.Placed
  remembers : s.Remembers P

namespace SourceDesc

variable {s : SourceDesc} {P : SlotProperty}

/-- A new source has no slots. -/
theorem settled_start (P : SlotProperty) : ({} : SourceDesc).Settled P :=
  ⟨nofun, fun i hi => absurd hi (Nat.not_lt_zero i)⟩

theorem Seated.settled (h : s.Seated P) : s.Settled P := ⟨fun _ => h.placed, h.remembers⟩

theorem Settled.seated (h : s.Settled P) (hd : s.decoder.isSome = true) : s.Seated P :=
  ⟨h.placed hd, h.remembers⟩

/-- **One action** keeps a property of slots, if the block that a packet opens has it. -/
theorem settled_step (h : s.Settled P) {a : SinkAction}
    (hopen : s.decoder.isSome = true → ∀ d, a = .addPacket d → ∀ u, s.opened d = some u →
      P.holds ((u.jitterBuffer.slot u.jitterBuffer.head).init d.toDataPacket) []) :
    (s.step a).Settled P := by
  cases a with
  | handleStart a =>
    have hsame : ∀ t : SourceDesc, t.jitterBuffer = s.jitterBuffer → t.asked = s.asked →
        t.Remembers P := by
      intro t hj ha
      exact h.remembers.calm ⟨hj ▸ .refl _, ha⟩
    rw [step, handleStart]
    split
    next => exact h
    next =>
      dsimp only
      split
      -- a new format has its own decoder
      next n _ =>
        split
        next =>
          refine Seated.settled (Remembers.restart ?_ ?_ a)
          · exact hsame _ rfl rfl
          · rfl
        next => exact ⟨fun hd => absurd hd Bool.false_ne_true, h.remembers⟩
      next =>
        split
        next hd =>
          refine Seated.settled (Remembers.restart ?_ ?_ a)
          · exact hsame _ rfl rfl
          · exact hd
        next => exact ⟨h.placed, h.remembers⟩
  | update u =>
    rw [step]
    split
    next hd => exact (h.remembers.update hd u).settled
    next => exact h
  | setState streamState stopped underrun =>
    rw [step]
    split
    next => exact ⟨h.placed, h.remembers⟩
    next => exact h
  | handleUnderrun =>
    rw [step]
    split
    next hd =>
      have hreset : s.Calm s.handleUnderrun := ⟨s.jitterBuffer.calm_reset, rfl⟩
      exact ((h.seated hd).calm hreset).settled
    next => exact h
  | addPacket d =>
    rw [step]
    split
    next hd => exact ((h.seated hd).addPacket (hopen hd d rfl)).settled
    next => exact h
  | checkMissingBlocks resendEnabled limit due =>
    rw [step]
    split
    next hd => exact ((h.seated hd).checkMissingBlocks ..).settled
    next => exact h
  | tryDecodeBlock i =>
    rw [step]
    split
    next hd => exact ((h.seated hd).calm (s.calm_tryDecodeBlock i)).settled
    next => exact h

end SourceDesc

end Aoo.Stream
