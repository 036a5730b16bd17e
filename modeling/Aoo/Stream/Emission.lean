import Aoo.Stream.Framing

/-!
# What a source puts on the wire

Every packet that a source sends is a `Wire` packet, whatever settings, streams,
sinks and requests it has seen (`run_inv`). With the round trips of
`Stream.RoundTrip` this says exactly when the sink gets back what was sent
(`emitted_roundTrips_iff`).
-/

namespace Aoo.Stream

open Lib

/-! ## The shared buffer -/

/-- Only eight bytes of the low-latency header depend on the stream id. -/
theorem DataPacket.header_bytes_split (d : DataPacket) :
    ∃ pre post : List UInt8, pre.length = 12 ∧ ∀ streamId,
      (d.header streamId).bytes =
        pre ++ (toBytes 8 (unsigned 4294967296 streamId) ++ post) := by
  refine ⟨(d.header 0).bytes.take 12, (d.header 0).bytes.drop 20, ?_, fun streamId => ?_⟩
  · rw [List.length_take, AooLowLatencyPacketHeader.bytes_length]
    rfl
  · have hid : (d.header streamId).streamId.toNat = unsigned 4294967296 streamId := by
      have := @unsigned_lt 4294967296 (by decide) streamId
      simp only [DataPacket.header, UInt64.toNat_ofNat']
      omega
    simp only [AooLowLatencyPacketHeader.bytes, AooLowLatencyPacketHeader.kMagic, hid]
    simp only [DataPacket.header, toBytes, List.cons_append, List.nil_append, List.take_succ_cons,
      List.take_zero, List.drop_succ_cons, List.drop_zero]

theorem findLowLatencyHeader_eq {d : DataPacket}
    (h : hasBit d.flags kAooBinMsgDataLowLatency = true) (streamId : Int) :
    findLowLatencyHeader d = some (d.head streamId).length := by
  have hlen : ∀ (p : Bool) (w : List UInt8),
      (if p then w else []).length = if p then w.length else 0 := by
    intro p w
    cases p <;> rfl
  rw [findLowLatencyHeader, if_pos h, d.head_length, DataPacket.sections]
  simp only [List.length_append, hlen, DataPacket.framesSection_length, int32Bytes_length,
    toBytes_length, Nat.add_assoc]

/-- **Patching is encoding again**: after stream id and channel of a sink have
been written over them, the arguments are those of the packet for that sink. -/
theorem patchArgs_eq (d : DataPacket) (s : CachedSink) (channel streamId : Int) :
    patchArgs (({ d with channel := channel } : DataPacket).head streamId ++ d.tail streamId) d s =
      ({ d with channel := s.channel } : DataPacket).head s.streamId ++ d.tail s.streamId := by
  have hstream : ∀ (old new : Int) (c : List UInt8),
      writeAt (int32Bytes old ++ c) 0 (int32Bytes new) = int32Bytes new ++ c := by
    intro old new c
    have := @writeAt_append UInt8 [] (int32Bytes old) c (int32Bytes new) (by simp)
    simpa using this
  have hchannel : ∀ (a b : List UInt8) (old new : UInt8) (c : List UInt8), a.length = 4 →
      b.length = 4 → writeAt (a ++ (b ++ ([old] ++ c))) 8 [new] = a ++ (b ++ ([new] ++ c)) := by
    intro a b old new c ha hb
    have hlen : (a ++ b).length = 8 := by
      rw [List.length_append]
      omega
    have := @writeAt_append UInt8 (a ++ b) [old] c [new] rfl
    rwa [hlen, List.append_assoc, List.append_assoc] at this
  simp only [patchArgs, DataPacket.head, List.append_assoc]
  rw [hstream, hchannel _ _ _ _ _ (int32Bytes_length _) (int32Bytes_length _)]
  by_cases hll : hasBit d.flags kAooBinMsgDataLowLatency = true
  · obtain ⟨pre, post, hpre, hbytes⟩ := d.header_bytes_split
    rw [findLowLatencyHeader_eq hll s.streamId]
    have hlen : (({ d with channel := s.channel } : DataPacket).head s.streamId ++ pre).length =
        (d.head s.streamId).length + 12 := by
      rw [List.length_append, hpre, DataPacket.head_length, DataPacket.head_length]
      rfl
    have hpatch := @writeAt_append UInt8
      (({ d with channel := s.channel } : DataPacket).head s.streamId ++ pre)
      (toBytes 8 (unsigned 4294967296 streamId)) (post ++ d.data)
      (toBytes 8 (unsigned 4294967296 s.streamId)) (by simp)
    rw [hlen] at hpatch
    simp only [DataPacket.head, List.append_assoc] at hpatch
    simp only [DataPacket.tail, if_pos hll, hbytes, List.append_assoc]
    exact hpatch
  · have hnone : findLowLatencyHeader d = none := if_neg hll
    rw [hnone]
    simp only [DataPacket.tail, if_neg hll]
    rfl

/-- The datagrams of the shared buffer are those of `send_packet_bin`. -/
theorem sendPatched_getElem? (d : DataPacket) (id : Int) (sinks : List CachedSink)
    (channel streamId : Int) (i : Nat) :
    (sendPatched id d d.binSize
      (({ d with channel := channel } : DataPacket).head streamId ++ d.tail streamId) sinks)[i]? =
      sinks[i]?.map fun s => .bin (binmsgWriteHeader AOO_MAX_PACKET_SIZE .sink kAooBinMsgCmdData
        s.id id ++ (({ d with channel := s.channel } : DataPacket).head s.streamId ++
          d.tail s.streamId)) := by
  induction sinks generalizing channel streamId i with
  | nil => rfl
  | cons s sinks ih =>
    have hlen : (({ d with channel := s.channel } : DataPacket).head s.streamId ++
        d.tail s.streamId).length = d.binSize :=
      ({ d with channel := s.channel } : DataPacket).head_tail_length s.streamId
    rw [sendPatched]
    simp only [patchArgs_eq]
    cases i with
    | zero =>
      rw [binmsgWriteHeader_of_large (show 12 ≤ AOO_MAX_PACKET_SIZE by decide),
        List.take_of_length_le (Nat.le_of_eq hlen)]
      rfl
    | succ i =>
      rw [List.getElem?_cons_succ, List.getElem?_cons_succ]
      exact ih s.channel s.streamId i

theorem sendPatched_bin {id : Int} {d : DataPacket} {argsize : Nat} {args : List UInt8}
    {sinks : List CachedSink} {m : Datagram} (h : m ∈ sendPatched id d argsize args sinks) :
    ∃ data, m = .bin data := by
  induction sinks generalizing args with
  | nil => cases h
  | cons s sinks ih =>
    rw [sendPatched] at h
    rcases List.mem_cons.mp h with rfl | h
    · exact ⟨_, rfl⟩
    · exact ih h

/-! ## Emissions -/

/-- What holds of everything that the source `id` sends. -/
structure Emission.Ok (id : Int) (e : Emission) : Prop where
  wire : e.packet.Wire
  channel : e.packet.channel = e.sink.channel
  sinkId : 0 ≤ e.sink.id ∧ e.sink.id < 2147483648
  streamId : -2147483648 ≤ e.sink.streamId ∧ e.sink.streamId < 2147483648
  binForm : e.binary = true → e.packet.numFrames < 65536 →
    e.datagram = sendPacketBin e.sink id e.packet
  binOnly : e.binary = true → ∀ m, e.datagram = some m → ∃ data, m = .bin data
  fits : e.binary = true → e.resent = false → Fits e.sink id e.packet
  first : e.resent = false → ∃ o : Original, o.Ok ∧ ∃ p ∈ o.packets,
    e.packet = { p with channel := e.sink.channel }

theorem mem_cachedSinks {s : Source} {c : CachedSink} (h : c ∈ s.cachedSinks) :
    (0 ≤ c.id ∧ c.id < 2147483648) ∧ (-2147483648 ≤ c.streamId ∧ c.streamId < 2147483648) := by
  obtain ⟨sink, -, rfl⟩ := List.mem_map.mp h
  exact ⟨sink.id_range, sink.stream_range⟩

theorem mem_upToFailure {e : Emission} {es : List Emission} (h : e ∈ upToFailure es) : e ∈ es := by
  induction es with
  | nil => cases h
  | cons e' es ih =>
    rw [upToFailure] at h
    split at h
    next =>
      rcases List.mem_cons.mp h with rfl | h
      · exact List.mem_cons_self ..
      · exact List.mem_cons_of_mem _ (ih h)
    next =>
      rw [List.mem_singleton.mp h]
      exact List.mem_cons_self ..

theorem DataPacket.binSize_le (d : DataPacket) : d.binSize ≤ 92 + d.data.length := by
  have := d.sections_length_le
  unfold DataPacket.binSize
  split <;> omega

/-- **`send_packet` and `send_packet_bin` agree** on what fits. -/
theorem sendPacket_getElem? {d : DataPacket} (h : d.Wire) (hn : d.numFrames < 65536)
    (hfit : 104 + d.data.length ≤ 4096) {sinks : List CachedSink} {id : Int} {i : Nat}
    {s : CachedSink} (hs : sinks[i]? = some s)
    (hw : ({ d with channel := s.channel } : DataPacket).Wire) :
    (sendPacket sinks id d true)[i]? =
      sendPacketBin s id { d with channel := s.channel } := by
  have hsize := d.binSize_le
  have hargs := writeBinData_eq h hn
    (show 92 ≤ AOO_MAX_PACKET_SIZE - kAooBinMsgLargeHeaderSize by decide) kAooIdInvalid
  have hlen := d.head_tail_length kAooIdInvalid
  have hhead : headerSize s.id id ≤ 12 := by
    unfold headerSize
    split <;> omega
  have hbin : ({ d with channel := s.channel } : DataPacket).binSize = d.binSize := rfl
  have hf : Fits s id { d with channel := s.channel } := by
    unfold Fits AOO_MAX_PACKET_SIZE
    omega
  rw [(sendPacketBin_eq hw hn s id).1 hf, sendPacket, if_pos rfl]
  simp only [hargs, hlen]
  rw [if_pos (by unfold AOO_MAX_PACKET_SIZE kAooBinMsgLargeHeaderSize; omega)]
  have := sendPatched_getElem? d id sinks d.channel kAooIdInvalid i
  rw [hs, Option.map_some] at this
  exact this

theorem Original.Ok.data_length_le {o : Original} (h : o.Ok) {p : DataPacket}
    (hp : p ∈ o.packets) : p.data.length ≤ o.maxsize := by
  rw [h.packets, framePackets_eq _ h.maxsize.2, List.mem_map] at hp
  obtain ⟨j, -, rfl⟩ := hp
  simp only [frameOf, chunk, List.length_take]
  omega

/-- One call of `send_packet` with a frame of a block. -/
theorem emit_ok {o : Original} (h : o.Ok) {p : DataPacket} (hp : p ∈ o.packets) {binary : Bool}
    (hfit : binary = true → 104 + o.maxsize ≤ 4096) {s : Source} {id : Int} {e : Emission}
    (he : e ∈ emit s.cachedSinks id binary p) : e.Ok id := by
  rw [emit, List.mem_mapIdx] at he
  obtain ⟨i, hi, rfl⟩ := he
  have hmem : s.cachedSinks[i] ∈ s.cachedSinks := List.getElem_mem hi
  obtain ⟨hid, hstream⟩ := mem_cachedSinks hmem
  have hlen := h.data_length_le hp
  refine ⟨h.wire hp _, rfl, hid, hstream, fun hb hn => ?_, fun hb m hm => ?_, fun hb _ => ?_,
    fun _ => ⟨o, h, p, hp, rfl⟩⟩
  · simp only at hb hn ⊢
    have hf := hfit hb
    have hwire : p.Wire := h.wire hp p.channel
    subst hb
    exact sendPacket_getElem? hwire hn (by omega)
      (List.getElem?_eq_getElem hi) (h.wire hp _)
  · simp only at hb hm
    subst hb
    rw [sendPacket, if_pos rfl] at hm
    simp only at hm
    split at hm
    next => exact sendPatched_bin (List.mem_of_getElem? hm)
    next => cases hm
  · have hf := hfit hb
    have hsize := p.binSize_le
    have hbin : ({ p with channel := s.cachedSinks[i].channel } : DataPacket).binSize =
        p.binSize := rfl
    have hhead : headerSize s.cachedSinks[i].id id ≤ 12 := by
      unfold headerSize
      split <;> omega
    unfold Fits AOO_MAX_PACKET_SIZE
    simp only [hbin]
    omega

/-! ## Runs -/

/-- The blocks that the history buffer still has. -/
def Run.kept (r : Run) : List Original := r.saved.drop (r.saved.length - r.source.history.size)

structure RunInv (r : Run) : Prop where
  sequence : r.source.sequence = invalidStream ∨
    (0 ≤ r.source.sequence ∧ r.source.sequence < 2147483647)
  capacity : r.source.history.capacity < 2147483648
  saved : ∀ o ∈ r.saved, o.Ok
  keeps : 0 < r.source.history.capacity → r.source.history.size ≤ r.saved.length ∧
    r.source.history.Keeps (r.kept.map (·.stored))
  empty : r.source.history.capacity = 0 → r.saved = []
  order : ∃ q : Nat,
    (∀ i o, r.saved[i]? = some o → o.packet.sequence = (((q + i) % 2147483647 : Nat) : Int)) ∧
    (r.saved = [] ∨ r.source.sequence = (((q + r.saved.length) % 2147483647 : Nat) : Int))
  emitted : ∀ e ∈ r.emitted, e.Ok r.source.id

/-- A source that has not sent anything. -/
def Run.start (id : Int) (h : 0 ≤ id ∧ id < 2147483648) (packetSize : PacketSize) (binary : Bool)
    (redundancy : Nat) : Run where
  source := { id, packetSize, binary, redundancy, id_range := h }

theorem runInv_start (id : Int) (h : 0 ≤ id ∧ id < 2147483648) (packetSize : PacketSize)
    (binary : Bool) (redundancy : Nat) : RunInv (Run.start id h packetSize binary redundancy) := by
  refine ⟨Or.inl rfl, by show 0 < _; decide, fun _ ho => (by cases ho), fun hc => ?_, fun _ => rfl,
    ⟨0, fun i o ho => ?_, Or.inl rfl⟩, fun _ he => (by cases he)⟩
  · exact absurd hc (by show ¬ 0 < 0; decide)
  · simp [Run.start] at ho

/-- After the history buffer has been cleared, nothing is kept. -/
theorem RunInv.cleared {r r' : Run} (h : RunInv r) (hsaved : r'.saved = []) {b : HistoryBuffer}
    (hhist : r'.source.history = b.clear) (hcap : b.capacity < 2147483648)
    (hseq : r'.source.sequence = invalidStream ∨
      (0 ≤ r'.source.sequence ∧ r'.source.sequence < 2147483647))
    (hid : r'.source.id = r.source.id) (hem : r'.emitted = r.emitted) : RunInv r' := by
  have hkept : r'.kept = [] := by
    rw [Run.kept, hsaved, List.drop_nil]
  refine ⟨hseq, ?_, fun o ho => ?_, fun hpos => ⟨?_, ?_⟩, fun _ => hsaved,
    ⟨0, fun i o ho => ?_, Or.inl hsaved⟩, ?_⟩
  · rw [hhist]
    exact hcap
  · rw [hsaved] at ho
    cases ho
  · rw [hhist]
    exact Nat.zero_le _
  · rw [hhist] at hpos ⊢
    rw [hkept]
    exact HistoryBuffer.keeps_clear hpos
  · rw [hsaved] at ho
    simp at ho
  · rw [hem, hid]
    exact h.emitted

theorem nextSequence_range {seq : Int} (h : 0 ≤ seq ∧ seq < 2147483647) :
    0 ≤ nextSequence seq ∧ nextSequence seq < 2147483647 := by
  unfold nextSequence
  split <;> omega

/-- The next number in the order of the blocks. -/
theorem nextSequence_mod {n : Nat} {seq : Int} (h : seq = ((n % 2147483647 : Nat) : Int)) :
    nextSequence seq = (((n + 1) % 2147483647 : Nat) : Int) := by
  unfold nextSequence
  split <;> omega

/-- A block that is sent is saved at the end, and the oldest one may go. -/
theorem RunInv.sent {r r' : Run} (h : RunInv r)
    (hseq : 0 ≤ r.source.sequence ∧ r.source.sequence < 2147483647) {o : Original} (ho : o.Ok)
    (hoseq : o.packet.sequence = r.source.sequence)
    (hsaved : r'.saved = if r.source.history.capacity > 0 then r.saved ++ [o] else r.saved)
    (hhist : r'.source.history = r.source.save o.stored)
    (hnext : r'.source.sequence = nextSequence r.source.sequence)
    (hid : r'.source.id = r.source.id) {es : List Emission} (hem : r'.emitted = r.emitted ++ es)
    (hes : ∀ e ∈ es, e.Ok r.source.id) : RunInv r' := by
  have hemit : ∀ e ∈ r'.emitted, e.Ok r'.source.id := by
    rw [hem, hid]
    intro e he
    rcases List.mem_append.mp he with he | he
    · exact h.emitted e he
    · exact hes e he
  have hrange : 0 ≤ r'.source.sequence ∧ r'.source.sequence < 2147483647 := by
    rw [hnext]
    exact nextSequence_range hseq
  by_cases hcap : r.source.history.capacity > 0
  · rw [if_pos hcap] at hsaved
    rw [Source.save, if_pos hcap] at hhist
    obtain ⟨hle, hkeeps⟩ := h.keeps hcap
    have hpush := HistoryBuffer.keeps_push hkeeps o.stored
    have hlen : (r.kept.map (·.stored)).length = r.source.history.size := by
      rw [List.length_map, Run.kept, List.length_drop]
      omega
    have hcap' : r'.source.history.capacity = r.source.history.capacity := by
      rw [hhist, HistoryBuffer.capacity_push]
    have hsize' : r'.source.history.size = if r.source.history.size < r.source.history.capacity
        then r.source.history.size + 1 else r.source.history.size := by
      rw [hhist]
      rfl
    refine ⟨Or.inr hrange, by rw [hcap']; exact h.capacity, fun o' ho' => ?_, fun _ => ⟨?_, ?_⟩,
      fun hc => ?_, ?_, hemit⟩
    · rw [hsaved] at ho'
      rcases List.mem_append.mp ho' with ho' | ho'
      · exact h.saved o' ho'
      · rw [List.mem_singleton.mp ho']
        exact ho
    · rw [hsize', hsaved, List.length_append, List.length_singleton]
      split <;> omega
    · rw [hlen] at hpush
      have hkept : r'.kept.map (·.stored) = (if r.source.history.size < r.source.history.capacity
          then r.kept.map (·.stored) else (r.kept.map (·.stored)).drop 1) ++ [o.stored] := by
        rw [Run.kept, hsaved, List.length_append, List.length_singleton, hsize']
        split
        next hroom =>
          rw [show r.saved.length + 1 - (r.source.history.size + 1) =
            r.saved.length - r.source.history.size by omega,
            List.drop_append_of_le_length (by omega), List.map_append]
          rfl
        next hfull =>
          have hpos : 0 < r.source.history.size := by
            have := hkeeps.holds.fits
            have := hkeeps.size
            unfold HistoryBuffer.capacity at *
            omega
          rw [show r.saved.length + 1 - r.source.history.size =
            (r.saved.length - r.source.history.size) + 1 by omega,
            List.drop_append_of_le_length (by omega), List.map_append, ← List.map_drop, Run.kept,
            List.drop_drop]
          rfl
      rw [hkept, hhist]
      exact hpush
    · omega
    · obtain ⟨q, hq, hlast⟩ := h.order
      rcases hlast with hnil | hlast
      · -- the first block that is saved
        refine ⟨r.source.sequence.toNat, fun i o' ho' => ?_, Or.inr ?_⟩
        · rw [hsaved, hnil, List.nil_append, List.getElem?_singleton] at ho'
          split at ho'
          next hi =>
            cases ho'
            omega
          next => cases ho'
        · rw [hnext, hsaved, hnil]
          exact nextSequence_mod (by omega)
      · refine ⟨q, fun i o' ho' => ?_, Or.inr ?_⟩
        · rw [hsaved, List.getElem?_append] at ho'
          split at ho'
          next => exact hq i o' ho'
          next hge =>
            rw [List.getElem?_singleton] at ho'
            split at ho'
            next hi =>
              cases ho'
              rw [hoseq, hlast, show i = r.saved.length by omega]
            next => cases ho'
        · rw [hnext, hsaved, List.length_append, List.length_singleton, ← Nat.add_assoc]
          exact nextSequence_mod hlast
  · rw [if_neg hcap] at hsaved
    rw [Source.save, if_neg hcap] at hhist
    have hnil : r'.saved = [] := by
      rw [hsaved]
      exact h.empty (by omega)
    refine ⟨Or.inr hrange, by rw [hhist]; exact h.capacity, fun o' ho' => ?_, fun hpos => ?_,
      fun _ => hnil, ⟨0, fun i o' ho' => ?_, Or.inl hnil⟩, hemit⟩
    · rw [hnil] at ho'
      cases ho'
    · rw [hhist] at hpos
      omega
    · rw [hnil] at ho'
      simp at ho'

/-- The run only changes its settings. -/
theorem RunInv.of_eq {r r' : Run} (h : RunInv r) (hsaved : r'.saved = r.saved)
    (hhist : r'.source.history = r.source.history)
    (hseq : r'.source.sequence = r.source.sequence) (hid : r'.source.id = r.source.id)
    {es : List Emission} (hem : r'.emitted = r.emitted ++ es)
    (hes : ∀ e ∈ es, e.Ok r.source.id) : RunInv r' := by
  have hkept : r'.kept = r.kept := by
    rw [Run.kept, Run.kept, hsaved, hhist]
  refine ⟨?_, ?_, ?_, ?_, ?_, ?_, ?_⟩
  · rw [hseq]
    exact h.sequence
  · rw [hhist]
    exact h.capacity
  · rw [hsaved]
    exact h.saved
  · rw [hsaved, hhist, hkept]
    exact h.keeps
  · rw [hsaved, hhist]
    exact h.empty
  · rw [hsaved, hseq]
    exact h.order
  · rw [hem, hid]
    intro e he
    rcases List.mem_append.mp he with he | he
    · exact h.emitted e he
    · exact hes e he

/-- What `resend_data` sends comes from blocks that the buffer keeps. -/
theorem RunInv.resendRequest_ok {r : Run} (h : RunInv r) (hcap : 0 < r.source.history.capacity)
    {sink : SinkDesc} {q : DataRequest} {es : List Emission}
    (hes : r.source.resendRequest sink q = some es) {e : Emission} (he : e ∈ es) :
    e.Ok r.source.id := by
  unfold Source.resendRequest at hes
  split at hes
  next =>
    cases hes
    cases he
  next b hb =>
    obtain ⟨ps, hps, rfl⟩ := Option.map_eq_some_iff.mp hes
    obtain ⟨p, hp, rfl⟩ := List.mem_map.mp he
    obtain ⟨hmem, -⟩ := HistoryBuffer.find_some (h.keeps hcap).2 hb
    obtain ⟨o, ho, rfl⟩ := List.mem_map.mp hmem
    have hok := h.saved o (List.mem_of_mem_drop ho)
    obtain ⟨hwire, hch⟩ := hok.resend_wire hps hp
    refine ⟨hwire, hch, sink.id_range, sink.stream_range, fun hb _ => ?_, fun hb m hm => ?_,
      fun _ hno => (by cases hno), fun hno => (by cases hno)⟩
    · simp only at hb ⊢
      rw [if_pos hb]
    · simp only at hb hm
      rw [if_pos hb, sendPacketBin] at hm
      split at hm
      next =>
        cases hm
        exact ⟨_, rfl⟩
      next => cases hm

theorem RunInv.resendRequests_ok {r : Run} (h : RunInv r) (hcap : 0 < r.source.history.capacity)
    {requests : List (SinkDesc × DataRequest)} {e : Emission}
    (he : e ∈ r.source.resendRequests requests) : e.Ok r.source.id := by
  induction requests with
  | nil => cases he
  | cons q requests ih =>
    rw [Source.resendRequests] at he
    split at he
    next => cases he
    next es hes =>
      rcases List.mem_append.mp he with he | he
      · exact h.resendRequest_ok hcap hes he
      · exact ih he

theorem extend_sequence (s : Source) (d : DataPacket) (position : UInt64) :
    (s.extend d position).sequence = d.sequence := by
  unfold Source.extend
  split <;> rfl

/-- **One step** of a source keeps the invariant. -/
theorem RunInv.step {r : Run} (h : RunInv r) (a : Action) : RunInv (r.step a) := by
  have hseq : ¬ (r.source.sequence = invalidStream ∨ r.source.cachedSinks = []) →
      0 ≤ r.source.sequence ∧ r.source.sequence < 2147483647 := fun hc =>
    h.sequence.resolve_left fun hs => hc (Or.inl hs)
  have hresize : ∀ n < 2147483648, ∀ b : HistoryBuffer,
      HistoryBuffer.capacity { b with
        buffer := b.buffer.take n ++ List.replicate (n - b.buffer.length) {} } < 2147483648 := by
    intro n hn b
    simp only [HistoryBuffer.capacity, List.length_append, List.length_take, List.length_replicate]
    omega
  cases a with
  | makeNewStream c =>
    exact h.cleared rfl rfl h.capacity (Or.inr ⟨by show (0 : Int) ≤ 0; decide,
      by show (0 : Int) < _; decide⟩) rfl rfl
  | resizeHistory n hn =>
    exact h.cleared rfl rfl (hresize n hn _) h.sequence rfl rfl
  | invalidate n hn =>
    exact h.cleared rfl rfl (hresize n hn _) (Or.inl rfl) rfl rfl
  | control packetSize binary redundancy =>
    exact h.of_eq rfl rfl rfl rfl (List.append_nil _).symm (fun _ he => (by cases he))
  | setSinks sinks =>
    exact h.of_eq rfl rfl rfl rfl (List.append_nil _).symm (fun _ he => (by cases he))
  | sendXrun =>
    by_cases hc : r.source.sequence = invalidStream ∨ r.source.cachedSinks = []
    · have hsend : r.source.sendXrun = (r.source, []) := if_pos hc
      -- nothing is sent without a stream or without sinks
      refine @RunInv.of_eq r _ h (if_neg fun hn => hn.2 hc) ?_ ?_ ?_ [] ?_
        (fun _ he => (by cases he))
      all_goals simp only [Run.step, hsend]
    · have hsend : r.source.sendXrun = (_, _) := if_neg hc
      refine h.sent (hseq hc) (originalXrun_ok (hseq hc)) (extend_sequence _ _ _) ?_ ?_ ?_ ?_ rfl
        (fun e he => ?_)
      · simp only [Run.step, Run.remember, hc, not_false_eq_true, and_true]
      · simp only [Run.step, hsend]
        rfl
      · simp only [Run.step, hsend]
      · simp only [Run.step, hsend]
      · rw [hsend] at he
        exact emit_ok (originalXrun_ok (hseq hc)) (List.mem_singleton_self _)
          (fun _ => by show 104 + 0 ≤ 4096; decide) (mem_upToFailure he)
  | sendBlock b =>
    by_cases hc : r.source.sequence = invalidStream ∨ r.source.cachedSinks = []
    · have hsend : r.source.sendBlock b = (r.source, []) := if_pos hc
      refine @RunInv.of_eq r _ h (if_neg fun hn => hn.2 hc) ?_ ?_ ?_ [] ?_
        (fun _ he => (by cases he))
      all_goals simp only [Run.step, hsend]
    · have hsend : r.source.sendBlock b = (_, _) := if_neg hc
      refine h.sent (hseq hc) (originalBlock_ok (hseq hc) b) (extend_sequence _ _ _) ?_ ?_ ?_ ?_
        rfl (fun e he => ?_)
      · simp only [Run.step, Run.remember, hc, not_false_eq_true, and_true]
      · simp only [Run.step, hsend]
        rfl
      · simp only [Run.step, hsend]
      · simp only [Run.step, hsend]
      · rw [hsend] at he
        obtain ⟨p, hp, he⟩ := List.mem_flatMap.mp (mem_upToFailure he)
        obtain ⟨ps, hps, hp⟩ := List.mem_flatten.mp hp
        rw [(List.mem_replicate.mp hps).2] at hp
        refine emit_ok (originalBlock_ok (hseq hc) b) hp (fun hb => ?_) he
        -- the payload of a frame leaves room for the largest header
        have hle := r.source.packetSize.le
        show 104 + maxpacketsize r.source.packetSize r.source.binary ≤ 4096
        rw [hb, maxpacketsize, if_pos rfl]
        have hge := r.source.packetSize.ge
        unfold kBinDataHeaderSize kDataHeaderSize kAooBinMsgLargeHeaderSize
          AOO_LOW_LATENCY_PACKET_HEADER_SIZE AOO_MAX_PACKET_SIZE at *
        omega
  | resendData =>
    by_cases hcap : r.source.history.capacity = 0
    · have hsend : r.source.resendData = (r.source, []) := if_pos hcap
      refine @RunInv.of_eq r _ h rfl ?_ ?_ ?_ [] ?_ (fun _ he => (by cases he))
      all_goals simp only [Run.step, hsend]
    · have hsend : r.source.resendData = (_, _) := if_neg hcap
      refine h.of_eq rfl ?_ ?_ ?_ rfl (fun e he => ?_)
      · simp only [Run.step, hsend]
      · simp only [Run.step, hsend]
      · simp only [Run.step, hsend]
      · rw [hsend] at he
        exact h.resendRequests_ok (Nat.pos_of_ne_zero hcap) (mem_upToFailure he)

theorem run_inv {r : Run} (h : RunInv r) (as : List Action) : RunInv (as.foldl Run.step r) := by
  induction as generalizing r with
  | nil => exact h
  | cons a as ih => exact ih (h.step a)

theorem run_id (r : Run) (as : List Action) :
    (as.foldl Run.step r).source.id = r.source.id := by
  have hstep : ∀ (r : Run) (a : Action), (r.step a).source.id = r.source.id := by
    intro r a
    cases a with
    | sendXrun =>
      simp only [Run.step, Source.sendXrun]
      split <;> rfl
    | sendBlock b =>
      simp only [Run.step, Source.sendBlock]
      split <;> rfl
    | resendData =>
      simp only [Run.step, Source.resendData]
      split <;> rfl
    | _ => rfl
  induction as generalizing r with
  | nil => rfl
  | cons a as ih => rw [List.foldl_cons, ih, hstep]

/-- What a source has sent after any actions. -/
theorem emitted_ok {id : Int} (hid : 0 ≤ id ∧ id < 2147483648) {packetSize : PacketSize}
    {binary : Bool} {redundancy : Nat} {as : List Action} {e : Emission}
    (he : e ∈ (as.foldl Run.step (Run.start id hid packetSize binary redundancy)).emitted) :
    e.Ok id := by
  have hinv := run_inv (runInv_start id hid packetSize binary redundancy) as
  have hsame := run_id (Run.start id hid packetSize binary redundancy) as
  have := hinv.emitted e he
  rwa [hsame] at this

/-! ## The binary form -/

/-- **The binary form of stream data loses nothing exactly when it has room**:
whatever a source sends in binary form, first or again, the sink accepts it and
gets back ids, stream id and all fields if and only if the channel is in one
byte, the frame count in two, and the datagram fits the local buffer. A frame
that is sent for the first time always fits. -/
theorem emitted_roundTrips_iff (id : Int) (hid : 0 ≤ id ∧ id < 2147483648)
    (packetSize : PacketSize) (binary : Bool) (redundancy : Nat) (as : List Action) (e : Emission)
    (he : e ∈ (as.foldl Run.step (Run.start id hid packetSize binary redundancy)).emitted)
    (hb : e.binary = true) :
    (RoundTrips id e.sink e.packet e.datagram ↔
      (0 ≤ e.packet.channel ∧ e.packet.channel < 256) ∧ e.packet.numFrames < 65536 ∧
        Fits e.sink id e.packet) ∧
    (e.resent = false → Fits e.sink id e.packet) := by
  have hok := emitted_ok hid he
  refine ⟨?_, hok.fits hb⟩
  constructor
  · intro hr
    obtain ⟨m, hm⟩ : ∃ m, e.datagram = some m := by
      obtain ⟨m, -, hm, -⟩ := hr
      exact ⟨m, hm⟩
    obtain ⟨data, rfl⟩ := hok.binOnly hb m hm
    have hrange := hr
    rw [hm] at hrange
    obtain ⟨hc, hn⟩ := hrange.range
    rw [hok.binForm hb hn] at hr
    exact (roundTrips_bin_iff hok.wire hok.sinkId hid hok.streamId).mp hr
  · intro hcond
    rw [hok.binForm hb hcond.2.1]
    exact (roundTrips_bin_iff hok.wire hok.sinkId hid hok.streamId).mpr hcond

/-- A block of three bytes arrives as it was sent. -/
theorem roundTrips_three_bytes :
    let r := [Action.setSinks [⟨1, 5, 0, [], by decide, by decide, by decide⟩],
      .makeNewStream none, .sendBlock ⟨0, 0, 0, 0, [], [1, 2, 3], by decide, by decide, by decide,
        by decide⟩].foldl Run.step (Run.start 2 (by decide) ⟨146, by decide, by decide⟩ true 1)
    r.emitted.length = 1 ∧ ∀ e ∈ r.emitted, RoundTrips 2 e.sink e.packet e.datagram := by
  intro r
  have hcheck : r.emitted.length = 1 ∧ ∀ e ∈ r.emitted, e.binary = true ∧
      (0 ≤ e.packet.channel ∧ e.packet.channel < 256) ∧ e.packet.numFrames < 65536 ∧
      Fits e.sink 2 e.packet := by
    decide +kernel
  refine ⟨hcheck.1, fun e he => ?_⟩
  obtain ⟨hb, hcond⟩ := hcheck.2 e he
  exact (emitted_roundTrips_iff 2 (by decide) ⟨146, by decide, by decide⟩ true 1 _ e he hb).1.mpr
    hcond

/-- A sink whose channel onset is 300 gets the same block on channel 44. -/
theorem channel_300_becomes_44 :
    let r := [Action.setSinks [⟨1, 5, 300, [], by decide, by decide, by decide⟩],
      .makeNewStream none, .sendBlock ⟨0, 0, 0, 0, [], [1, 2, 3], by decide, by decide, by decide,
        by decide⟩].foldl Run.step (Run.start 2 (by decide) ⟨146, by decide, by decide⟩ true 1)
    r.emitted.map (fun e => (e.packet.channel,
      (e.datagram.bind parseData).map fun p => p.2.2.channel)) = [(300, some 44)] ∧
    ∃ e ∈ r.emitted, e.binary = true ∧ ¬ RoundTrips 2 e.sink e.packet e.datagram := by
  intro r
  have hmap : r.emitted.map (fun e => (e.packet.channel,
      (e.datagram.bind parseData).map fun p => p.2.2.channel)) = [(300, some 44)] := by
    decide +kernel
  have hbin : ∀ e ∈ r.emitted, e.binary = true := by decide +kernel
  refine ⟨hmap, ?_⟩
  obtain ⟨e, he, hval⟩ := List.map_eq_singleton_iff.mp hmap
  rw [he]
  refine ⟨e, List.mem_singleton_self _, hbin e (by rw [he]; exact List.mem_singleton_self _), ?_⟩
  rintro ⟨m, n, hm, hp, -, hsame⟩
  rw [Prod.mk.injEq, hm, Option.bind_some, hp, Option.map_some, Option.some.injEq] at hval
  have hch := hsame.channel
  rw [hval.1, hval.2] at hch
  exact absurd hch (by decide)

end Aoo.Stream
