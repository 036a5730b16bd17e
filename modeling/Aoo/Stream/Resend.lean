import Aoo.Stream.Emission

/-!
# Sending frames again

`resend_data` cuts the requested frames out of the copy of a block that the
history buffer keeps. The copy has no time tag, keeps the frame count in 16 bits,
and is looked up by a search that takes the sequence numbers to ascend. So the
frames that are sent again are those of the first transmission exactly while
none of this matters (`resend_iff_original`).
-/

namespace Aoo.Stream

open Lib

/-- The packets of a block that a request asks for, on the channel of a sink. -/
def Original.requested (o : Original) (r : DataRequest) (channel : Int) : List DataPacket :=
  (o.packets.filter fun p => r.selects p.frameIndex).map fun p => { p with channel := channel }

/-- The packets that `resend_data` produces for one request. -/
def Source.resendPackets (s : Source) (sink : SinkDesc) (r : DataRequest) :
    Option (List DataPacket) :=
  (s.resendRequest sink r).map fun es => es.map (·.packet)

theorem resendPackets_eq (s : Source) (sink : SinkDesc) (r : DataRequest) :
    s.resendPackets sink r =
      match s.history.find r.sequence with
      | none => some []
      | some b => b.resend sink.channel r := by
  unfold Source.resendPackets Source.resendRequest
  cases s.history.find r.sequence with
  | none => rfl
  | some b =>
    simp only [Option.map_map]
    have hid : (fun es : List Emission => es.map (·.packet)) ∘ (fun packets : List DataPacket =>
        packets.map fun d => (⟨sink.cached, d, true, s.binary, if s.binary then
          sendPacketBin sink.cached s.id d else sendPacketOsc sink.cached s.id d⟩ : Emission)) =
        id := by
      funext packets
      simp [Function.comp_def]
    rw [hid, Option.map_id_apply]

/-! ## Which blocks are found -/

/-- The sequence numbers of the blocks that are kept ascend: they have not
wrapped around in between. -/
def Run.NoWrap (r : Run) : Prop := r.kept.Pairwise fun a b => a.packet.sequence < b.packet.sequence

instance (r : Run) : Decidable r.NoWrap := inferInstanceAs (Decidable (List.Pairwise _ _))

theorem Run.NoWrap.ascending {r : Run} (h : r.NoWrap) :
    HistoryBuffer.Ascending (r.kept.map (·.stored)) := by
  refine List.pairwise_map.mpr (h.imp fun hlt => ?_)
  simpa only [Original.stored, SentBlock.set] using hlt

theorem Run.kept_nil {r : Run} (h : RunInv r) (hcap : r.source.history.capacity = 0) :
    r.kept = [] := by
  rw [Run.kept, h.empty hcap, List.drop_nil]

/-- While the numbers ascend, a block that is kept is found. -/
theorem RunInv.find_kept {r : Run} (h : RunInv r) (hw : r.NoWrap) {o : Original}
    (ho : o ∈ r.kept) : r.source.history.find o.packet.sequence = some o.stored := by
  have hcap : 0 < r.source.history.capacity := by
    by_contra hc
    rw [Run.kept_nil h (by omega)] at ho
    cases ho
  obtain ⟨i, hi, rfl⟩ := List.getElem_of_mem ho
  have hfind := @HistoryBuffer.find_eq _ _ (h.keeps hcap).2 hw.ascending i (by simpa using hi)
  rw [List.getElem_map] at hfind
  simpa only [Original.stored, SentBlock.set] using hfind

/-- Behind a wrap the blocks have numbers below that of the oldest one. -/
theorem RunInv.below_oldest {r : Run} (h : RunInv r) (hw : ¬ r.NoWrap) :
    ∃ hpos : 0 < r.kept.length, ∃ o ∈ r.kept,
      o.packet.sequence < r.kept[0].packet.sequence := by
  have hcap : 0 < r.source.history.capacity := by
    by_contra hc
    refine hw ?_
    rw [Run.NoWrap, Run.kept_nil h (by omega)]
    exact List.Pairwise.nil
  obtain ⟨hsize, hkeeps⟩ := h.keeps hcap
  have hlen : r.kept.length ≤ r.source.history.capacity := by
    have := hkeeps.holds.fits
    rwa [List.length_map] at this
  have hle := h.capacity
  obtain ⟨q, hq, -⟩ := h.order
  -- consecutive numbers from that of the oldest block on
  obtain ⟨a, ha⟩ : ∃ a : Nat, ∀ i (hi : i < r.kept.length),
      r.kept[i].packet.sequence = (((a + i) % 2147483647 : Nat) : Int) := by
    refine ⟨q + (r.saved.length - r.source.history.size), fun i hi => ?_⟩
    have hget : r.saved[r.saved.length - r.source.history.size + i]? = some r.kept[i] := by
      rw [← List.getElem?_drop]
      exact List.getElem?_eq_getElem hi
    rw [hq _ _ hget, Nat.add_assoc]
  obtain ⟨i, j, hi, hj, hij, hnot⟩ : ∃ i j, ∃ (hi : i < r.kept.length) (hj : j < r.kept.length),
      i < j ∧ ¬ r.kept[i].packet.sequence < r.kept[j].packet.sequence := by
    by_contra hall
    refine hw (List.pairwise_iff_getElem.mpr fun i j hi hj hij => ?_)
    by_contra hc
    exact hall ⟨i, j, hi, hj, hij, hc⟩
  refine ⟨by omega, r.kept[j], List.getElem_mem hj, ?_⟩
  rw [ha i hi, ha j hj] at hnot
  rw [ha j hj, ha 0 (by omega)]
  omega

/-- A block with a number below that of the oldest one is taken for too old. -/
theorem RunInv.find_below {r : Run} (h : RunInv r) (hpos : 0 < r.kept.length) {seq : Int}
    (hlt : seq < r.kept[0].packet.sequence) : r.source.history.find seq = none := by
  have hcap : 0 < r.source.history.capacity := by
    by_contra hc
    rw [Run.kept_nil h (by omega)] at hpos
    exact absurd hpos (Nat.lt_irrefl 0)
  have hkeeps := (h.keeps hcap).2
  have hstart : r.source.history.tail < r.source.history.capacity := hkeeps.holds.start
  have h0 := @HistoryBuffer.Keeps.getD_slot _ _ hkeeps 0 (by simpa using hpos)
  rw [Nat.add_zero, Nat.mod_eq_of_lt hstart, List.getElem_map] at h0
  have hsize : r.source.history.size > 0 := by
    have := hkeeps.size
    rw [List.length_map] at this
    omega
  rw [HistoryBuffer.find, if_pos hsize, if_pos]
  rw [h0]
  simpa only [Original.stored, SentBlock.set] using hlt

/-! ## Which frames are sent -/

theorem Original.Ok.packets_ne {o : Original} (h : o.Ok) : ∃ p, p ∈ o.packets := by
  rw [h.packets, framePackets_eq _ h.maxsize.2]
  exact ⟨frameOf o.packet o.content o.maxsize 0, List.mem_map.mpr ⟨0, by simp, rfl⟩⟩

/-- The packet of an empty block has index 0. -/
theorem Original.Ok.index_zero {o : Original} (h : o.Ok) (hzero : o.packet.numFrames = 0)
    {p : DataPacket} (hp : p ∈ o.packets) : p.frameIndex = 0 := by
  have hframes := h.frames
  rw [h.packets, framePackets_eq _ h.maxsize.2, List.mem_map] at hp
  obtain ⟨j, hj, rfl⟩ := hp
  rw [List.mem_range] at hj
  show (j : Int) = 0
  omega

/-- Whatever is sent again has the stored frame count and no time tag. -/
theorem resend_fields {b : SentBlock} {channel : Int} {r : DataRequest} {ps : List DataPacket}
    (h : b.resend channel r = some ps) {p : DataPacket} (hp : p ∈ ps) :
    p.tt = 0 ∧ p.numFrames = b.numFrames := by
  unfold SentBlock.resend at h
  split at h
  next => cases h
  next =>
    cases h
    obtain ⟨f, -, rfl⟩ := List.mem_map.mp hp
    exact ⟨rfl, rfl⟩

/-- A request for a frame of the block is met only if the block has no time tag
and its frame count fits 16 bits. -/
theorem Original.Ok.of_resend {o : Original} (h : o.Ok) {r : DataRequest} {channel : Int}
    {p : DataPacket} (hp : p ∈ o.packets) (hsel : r.selects p.frameIndex = true)
    (hr : o.stored.resend channel r = some (o.requested r channel)) :
    o.packet.tt = 0 ∧ o.packet.numFrames ≤ 32767 := by
  have hmem : ({ p with channel := channel } : DataPacket) ∈ o.requested r channel :=
    List.mem_map.mpr ⟨p, List.mem_filter.mpr ⟨hp, hsel⟩, rfl⟩
  obtain ⟨htt, hnum⟩ := resend_fields hr hmem
  obtain ⟨h1, -, h3⟩ := h.packet_fields hp
  have hstored : o.stored.numFrames = toInt16 o.packet.numFrames := by
    simp only [Original.stored, SentBlock.set]
  have := toInt16_le o.packet.numFrames
  simp only at htt hnum
  rw [hstored] at hnum
  exact ⟨by omega, by omega⟩

/-- A request for frames of the block is met if the block has no time tag and its
frame count fits 16 bits. -/
theorem Original.Ok.resend_requested {o : Original} (h : o.Ok) {r : DataRequest} (channel : Int)
    (htt : o.packet.tt = 0) (hn : o.packet.numFrames ≤ 32767)
    (hsel : o.packet.numFrames = 0 → r.selects 0 = true) :
    o.stored.resend channel r = some (o.requested r channel) := by
  have huntimed : ∀ p ∈ o.packets, ({ p with channel := channel, tt := 0 } : DataPacket) =
      { p with channel := channel } := by
    intro p hp
    rw [show p.tt = 0 from (h.packet_fields hp).1.trans htt]
  by_cases hzero : o.packet.numFrames = 0
  · rw [h.resend_empty hzero, Original.requested]
    have hall : (o.packets.filter fun p => r.selects p.frameIndex) = o.packets := by
      refine List.filter_eq_self.mpr fun p hp => ?_
      rw [h.index_zero hzero hp]
      exact hsel hzero
    rw [hall]
    exact congrArg some (List.map_congr_left huntimed)
  · have hpos : 0 < o.packet.numFrames := by
      have := h.frames
      omega
    rw [h.resend_eq hn hpos, Original.requested]
    refine congrArg some (List.map_congr_left fun p hp => ?_)
    exact huntimed p (List.mem_filter.mp hp).1

/-- Only a block with frames takes requests for none. -/
theorem Original.Ok.frames_of_resend {o : Original} (h : o.Ok) {r : DataRequest} {channel : Int}
    (hsel : ∀ i, r.selects i = false)
    (hr : o.stored.resend channel r = some (o.requested r channel)) : o.packet.numFrames ≠ 0 := by
  intro hzero
  have hnone : o.requested r channel = [] := by
    rw [Original.requested, List.filter_eq_nil_iff.mpr, List.map_nil]
    intro p _
    rw [hsel]
    decide
  rw [h.resend_empty hzero, hnone, Option.some.injEq, List.map_eq_nil_iff] at hr
  obtain ⟨p, hp⟩ := h.packets_ne
  rw [hr] at hp
  cases hp

/-! ## Runs -/

/-- For a block that is found, `resend_data` cuts out of its copy. -/
theorem RunInv.resendPackets_kept {r : Run} (h : RunInv r) (hw : r.NoWrap) {o : Original}
    (ho : o ∈ r.kept) {q : DataRequest} (hq : q.sequence = o.packet.sequence) (sink : SinkDesc) :
    r.source.resendPackets sink q = o.stored.resend sink.channel q := by
  rw [resendPackets_eq, hq, h.find_kept hw ho]

/-- The request for all frames of a block. -/
def DataRequest.wholeBlock (sequence : Int) : DataRequest := ⟨sequence, -1, 0⟩

theorem selects_wholeBlock (sequence i : Int) :
    (DataRequest.wholeBlock sequence).selects i = true := rfl

/-- A request is not met by a block that is not found. -/
theorem RunInv.noWrap {r : Run} (h : RunInv r) (sink : SinkDesc)
    (hall : ∀ o ∈ r.kept, ∀ q : DataRequest, q.sequence = o.packet.sequence →
      r.source.resendPackets sink q = some (o.requested q sink.channel)) : r.NoWrap := by
  by_contra hw
  obtain ⟨hpos, o, ho, hlt⟩ := h.below_oldest hw
  have hres := hall o ho (.wholeBlock o.packet.sequence) rfl
  rw [resendPackets_eq] at hres
  simp only [DataRequest.wholeBlock, h.find_below hpos hlt, Option.some.injEq] at hres
  obtain ⟨p, hp⟩ := (h.saved o (List.mem_of_mem_drop ho)).packets_ne
  have hmem : ({ p with channel := sink.channel } : DataPacket) ∈
      o.requested (.wholeBlock o.packet.sequence) sink.channel :=
    List.mem_map.mpr ⟨p, List.mem_filter.mpr ⟨hp, selects_wholeBlock _ _⟩, rfl⟩
  rw [DataRequest.wholeBlock, ← hres] at hmem
  cases hmem

/-- **When frames that are sent again are those of the first transmission**: in
every run, for all blocks in the history buffer and all requests for them, if and
only if the sequence numbers in the buffer have not wrapped around and every
block has no time tag and between 1 and 32767 frames. Without a wrap, a request
that asks for a frame of its block (the empty frame of an empty block included)
is met if and only if the block has no time tag and at most 32767 frames. The
frames of a block, put together, always are the block. -/
theorem resend_iff_original (id : Int) (hid : 0 ≤ id ∧ id < 2147483648) (packetSize : PacketSize)
    (binary : Bool) (redundancy : Nat) (as : List Action) (sink : SinkDesc) :
    let r := as.foldl Run.step (Run.start id hid packetSize binary redundancy)
    ((∀ o ∈ r.kept, ∀ q : DataRequest, q.sequence = o.packet.sequence →
        r.source.resendPackets sink q = some (o.requested q sink.channel)) ↔
      r.NoWrap ∧ ∀ o ∈ r.kept, o.packet.tt = 0 ∧ 0 < o.packet.numFrames ∧
        o.packet.numFrames ≤ 32767) ∧
    (r.NoWrap → ∀ o ∈ r.kept, ∀ q : DataRequest, q.sequence = o.packet.sequence →
      (∃ p ∈ o.packets, q.selects p.frameIndex = true) →
      (r.source.resendPackets sink q = some (o.requested q sink.channel) ↔
        o.packet.tt = 0 ∧ o.packet.numFrames ≤ 32767)) ∧
    (∀ o ∈ r.kept, o.packets.flatMap (·.data) = o.content) := by
  intro r
  have hinv : RunInv r := run_inv (runInv_start id hid packetSize binary redundancy) as
  have hok : ∀ o ∈ r.kept, o.Ok := fun o ho => hinv.saved o (List.mem_of_mem_drop ho)
  refine ⟨⟨fun hall => ?_, ?_⟩, ?_, ?_⟩
  · have hw := hinv.noWrap sink hall
    refine ⟨hw, fun o ho => ?_⟩
    -- the request for the whole block, and one for nothing
    have hwhole := hall o ho (.wholeBlock o.packet.sequence) rfl
    have hnone := hall o ho ⟨o.packet.sequence, 0, 0⟩ rfl
    rw [hinv.resendPackets_kept hw ho rfl] at hwhole hnone
    obtain ⟨p, hp⟩ := (hok o ho).packets_ne
    obtain ⟨htt, hn⟩ := (hok o ho).of_resend hp (selects_wholeBlock _ _) hwhole
    have hne := (hok o ho).frames_of_resend (by simp [DataRequest.selects]) hnone
    have := (hok o ho).frames
    exact ⟨htt, by omega, hn⟩
  · rintro ⟨hw, hall⟩ o ho q hq
    obtain ⟨htt, hpos, hn⟩ := hall o ho
    rw [hinv.resendPackets_kept hw ho hq]
    exact (hok o ho).resend_requested _ htt hn (by omega)
  · intro hw o ho q hq hsel
    obtain ⟨p, hp, hsel⟩ := hsel
    rw [hinv.resendPackets_kept hw ho hq]
    refine ⟨(hok o ho).of_resend hp hsel, fun hcond => ?_⟩
    refine (hok o ho).resend_requested _ hcond.1 hcond.2 fun hzero => ?_
    rwa [(hok o ho).index_zero hzero hp] at hsel
  · intro o ho
    rw [(hok o ho).packets]
    exact frames_flatten _ (hok o ho).maxsize.2

/-- A source with a history buffer of four blocks has sent a block of two frames
and one of a single frame: every request for them is met. -/
theorem resend_two_blocks :
    let sink : SinkDesc := ⟨1, 5, 0, [], by decide, by decide, by decide⟩
    let r := [Action.setSinks [sink], .resizeHistory 4 (by decide), .makeNewStream none,
      .sendBlock ⟨0, 0, 0, 0, [], List.replicate 50 7, by decide, by decide, by decide, by decide⟩,
      .sendBlock ⟨0, 0, 0, 0, [], [1, 2, 3], by decide, by decide, by decide, by decide⟩].foldl
        Run.step (Run.start 2 (by decide) ⟨146, by decide, by decide⟩ true 1)
    r.kept.map (·.packet.numFrames) = [2, 1] ∧
    ∀ o ∈ r.kept, ∀ q : DataRequest, q.sequence = o.packet.sequence →
      r.source.resendPackets sink q = some (o.requested q sink.channel) := by
  intro sink r
  refine ⟨by decide +kernel, ?_⟩
  exact (resend_iff_original 2 (by decide) ⟨146, by decide, by decide⟩ true 1 _ sink).1.mpr
    ⟨by decide +kernel, by decide +kernel⟩

/-- A block with time tag 9 is sent again with time tag 0. -/
theorem resent_without_time_tag :
    let sink : SinkDesc := ⟨1, 5, 0, [], by decide, by decide, by decide⟩
    let r := [Action.setSinks [sink], .resizeHistory 4 (by decide), .makeNewStream none,
      .sendBlock ⟨9, 0, 0, 0, [], [1, 2, 3], by decide, by decide, by decide, by decide⟩].foldl
        Run.step (Run.start 2 (by decide) ⟨146, by decide, by decide⟩ true 1)
    r.kept.map (fun o => (o.packet.sequence, o.packet.tt)) = [(0, 9)] ∧
    (r.source.resendPackets sink ⟨0, -1, 0⟩).map (fun ps => ps.map (·.tt)) = some [0] ∧
    ¬ ∀ o ∈ r.kept, ∀ q : DataRequest, q.sequence = o.packet.sequence →
      r.source.resendPackets sink q = some (o.requested q sink.channel) := by
  intro sink r
  have hsent : (r.source.resendPackets sink ⟨0, -1, 0⟩).map (fun ps => ps.map (·.tt)) =
      some [0] := by
    decide +kernel
  have hkept : ∃ o ∈ r.kept, o.packet.sequence = 0 ∧
      (o.requested ⟨0, -1, 0⟩ sink.channel).map (·.tt) = [9] := by
    decide +kernel
  refine ⟨by decide +kernel, hsent, fun hall => ?_⟩
  obtain ⟨o, ho, hseq, htt⟩ := hkept
  rw [hall o ho ⟨0, -1, 0⟩ hseq.symm, Option.map_some, htt] at hsent
  exact absurd hsent (by decide)

end Aoo.Stream
