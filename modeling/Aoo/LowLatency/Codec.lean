import Aoo.LowLatency
import Aoo.Lib.Buffer

/-!
# The low-latency codec is exact

The functions of `low_latency.cpp` as a caller sees them: every pointer may be
null, `Encode` writes into a destination of a given size and `Decode` overwrites
the caller's object. A null pointer is `none`, a buffer is the list of its bytes.

`Encode` and `Decode` check the fields in two places of the source. They draw the
same boundary: what `Decode` accepts is exactly what `Encode` writes, a byte
string has at most one reading, and a rejected input leaves the caller's object
as it was. The two halves are `read_bytes` (what was written is read back) and
`bytes_read` (what was read is written back).

**Main results.** `packetHeader_exact` and `streamConfiguration_exact`.
-/

namespace Aoo

open Lib

/-! ## Fields that are read and written back -/

theorem uint8_ofNat_field (bs : List UInt8) : (UInt8.ofNat (field 1 bs)).toNat = field 1 bs := by
  have hlt := field_lt 1 bs
  rw [UInt8.toNat_ofNat']
  exact Nat.mod_eq_of_lt (by omega)

theorem uint16_ofNat_field (bs : List UInt8) :
    (UInt16.ofNat (field 2 bs)).toNat = field 2 bs := by
  have hlt := field_lt 2 bs
  rw [UInt16.toNat_ofNat']
  exact Nat.mod_eq_of_lt (by omega)

theorem uint32_ofNat_field (bs : List UInt8) :
    (UInt32.ofNat (field 4 bs)).toNat = field 4 bs := by
  have hlt := field_lt 4 bs
  rw [UInt32.toNat_ofNat']
  exact Nat.mod_eq_of_lt (by omega)

theorem uint64_ofNat_field (bs : List UInt8) :
    (UInt64.ofNat (field 8 bs)).toNat = field 8 bs := by
  have hlt := field_lt 8 bs
  rw [UInt64.toNat_ofNat']
  exact Nat.mod_eq_of_lt (by omega)

/-- A field that fills the input is the input again. -/
theorem toBytes_field {k : Nat} {bs : List UInt8} (hk : bs.length = k) :
    toBytes k (field k bs) = bs := by
  rw [field, List.take_of_length_le (by omega), ← hk, toBytes_fromBytes]

/-- A field in front of what follows it is the input again. -/
theorem toBytes_field_append {k : Nat} {bs rest : List UInt8} (hk : k ≤ bs.length)
    (hrest : rest = bs.drop k) : toBytes k (field k bs) ++ rest = bs := by
  have hlen : (bs.take k).length = k := by
    rw [List.length_take]
    omega
  have hfield : field k (bs.take k) = field k bs := by
    rw [field, field, List.take_take, Nat.min_self]
  rw [← hfield, toBytes_field hlen, hrest, List.take_append_drop]

/-- A field that lies in front of a cut. -/
theorem field_drop_take {k i n : Nat} (h : i + k ≤ n) (bs : List UInt8) :
    field k ((bs.take n).drop i) = field k (bs.drop i) := by
  rw [field, field, List.drop_take, List.take_take, Nat.min_eq_left (by omega)]

/-! ## A decoder behind pointers -/

section Pointers

variable {β : Type} {dec : List UInt8 → Option β}
  {decodeTo : Option (List UInt8) → Option β → Except AooError Unit × Option β}

/-- `decodeTo` is `dec` behind pointers: it overwrites the caller's object with what
`dec` reads, and otherwise reports an error and leaves the object alone. -/
structure Overwrites (dec : List UInt8 → Option β)
    (decodeTo : Option (List UInt8) → Option β → Except AooError Unit × Option β) : Prop where
  accept : ∀ bs out b, dec bs = some b → decodeTo (some bs) (some out) = (.ok (), some b)
  reject : ∀ bs out, dec bs = none → decodeTo (some bs) (some out) = (.error .badFormat, some out)
  nullSource : ∀ out, decodeTo none out = (.error .badFormat, out)
  nullOut : ∀ bs, decodeTo (some bs) none = (.error .badFormat, none)

/-- One call reads the object, or reports an error and leaves it alone. -/
theorem Overwrites.cases (h : Overwrites dec decodeTo) (source : Option (List UInt8))
    (out : Option β) :
    (∃ bs o b, source = some bs ∧ out = some o ∧ dec bs = some b ∧
      decodeTo source out = (.ok (), some b)) ∨
    ((∀ bs o, source = some bs → out = some o → dec bs = none) ∧
      decodeTo source out = (.error .badFormat, out)) := by
  match source, out with
  | some bs, some o =>
    cases hd : dec bs with
    | some b => exact Or.inl ⟨bs, o, b, rfl, rfl, hd, h.accept bs o b hd⟩
    | none =>
      refine Or.inr ⟨fun bs' o' hs _ => ?_, h.reject bs o hd⟩
      cases hs
      exact hd
  | none, out => exact Or.inr ⟨nofun, h.nullSource out⟩
  | some bs, none => exact Or.inr ⟨nofun, h.nullOut bs⟩

/-- The call succeeds exactly on what `dec` reads. -/
theorem Overwrites.ok_iff (h : Overwrites dec decodeTo) (source : Option (List UInt8))
    (out : Option β) : (decodeTo source out).1 = .ok () ↔
      ∃ bs o b, source = some bs ∧ out = some o ∧ dec bs = some b := by
  rcases h.cases source out with ⟨bs, o, b, hs, ho, hd, hr⟩ | ⟨hnone, hr⟩
  · exact ⟨fun _ => ⟨bs, o, b, hs, ho, hd⟩, fun _ => by rw [hr]⟩
  · rw [hr]
    refine ⟨nofun, fun ⟨bs, o, b, hs, ho, hd⟩ => ?_⟩
    rw [hnone bs o hs ho] at hd
    cases hd

theorem Overwrites.unchanged (h : Overwrites dec decodeTo) {source : Option (List UInt8)}
    {out : Option β} (hne : (decodeTo source out).1 ≠ .ok ()) :
    (decodeTo source out).2 = out := by
  rcases h.cases source out with ⟨_, _, _, _, _, _, hr⟩ | ⟨_, hr⟩
  · exact absurd (by rw [hr]) hne
  · rw [hr]

end Pointers

/-! ## The packet header -/

namespace AooLowLatencyPacketHeader

/-- `aoo_lowLatencyPacketHeaderEncode`: the error and the destination afterwards. -/
def lowLatencyPacketHeaderEncode (header : Option AooLowLatencyPacketHeader)
    (destination : Option (List UInt8)) : Except AooError Unit × Option (List UInt8) :=
  match header, destination with
  | some h, some d =>
    match h.encode d.length with
    | some bs => (.ok (), some (writeAt d 0 bs))
    | none => (.error .badArgument, some d)
  | _, _ => (.error .badArgument, destination)

/-- `aoo_lowLatencyPacketHeaderDecode`: the error and the caller's header afterwards. -/
def lowLatencyPacketHeaderDecode (source : Option (List UInt8))
    (header : Option AooLowLatencyPacketHeader) :
    Except AooError Unit × Option AooLowLatencyPacketHeader :=
  match source, header with
  | some bs, some out =>
    match decode bs with
    | some h => (.ok (), some h)
    | none => (.error .badFormat, some out)
  | _, _ => (.error .badFormat, header)

/-- `Encode` accepts the header and writes `bs`, into every destination with room
for it, and nothing behind it. -/
def EncodesTo (h : AooLowLatencyPacketHeader) (bs : List UInt8) : Prop :=
  ∀ d : List UInt8, AOO_LOW_LATENCY_PACKET_HEADER_SIZE ≤ d.length →
    lowLatencyPacketHeaderEncode (some h) (some d) =
      (.ok (), some (bs ++ d.drop AOO_LOW_LATENCY_PACKET_HEADER_SIZE))

/-- `Encode` writes the fields of a valid header, and only of a valid one. -/
theorem encodesTo_iff {h : AooLowLatencyPacketHeader} {bs : List UInt8} :
    EncodesTo h bs ↔ h.valid = true ∧ bs = h.bytes := by
  refine ⟨fun henc => ?_, fun ⟨hv, hbs⟩ d hd => ?_⟩
  · have hd : AOO_LOW_LATENCY_PACKET_HEADER_SIZE ≤ (List.replicate 52 (0 : UInt8)).length := by
      rw [List.length_replicate, AOO_LOW_LATENCY_PACKET_HEADER_SIZE]
    have h0 := henc _ hd
    simp only [lowLatencyPacketHeaderEncode, encode_eq h hd] at h0
    cases hv : h.valid with
    | false =>
      rw [hv] at h0
      cases h0
    | true =>
      rw [hv] at h0
      refine ⟨rfl, ?_⟩
      have h1 := (Option.some.inj (Prod.mk.inj h0).2).symm
      simpa [writeAt, AOO_LOW_LATENCY_PACKET_HEADER_SIZE] using h1
  · simp only [lowLatencyPacketHeaderEncode, encode_eq h hd, hv, if_true, hbs, writeAt,
      List.take_zero, List.nil_append, bytes_length, Nat.zero_add,
      AOO_LOW_LATENCY_PACKET_HEADER_SIZE]

/-- **What is read is written back**: the encoding of the fields that stand
behind the magic number is the input. -/
theorem bytes_read {bs : List UInt8} (hlen : bs.length = 52) (hmagic : bs.take 4 = kMagic) :
    (read (bs.drop 4)).bytes = bs := by
  have hrest : (bs.drop 4).length = 48 := by
    rw [List.length_drop, hlen]
  have hfields : (read (bs.drop 4)).bytes = kMagic ++ bs.drop 4 := by
    simp only [bytes, read, uint8_ofNat_field, uint16_ofNat_field, uint32_ofNat_field,
      uint64_ofNat_field]
    generalize bs.drop 4 = xs at hrest ⊢
    congr 1
    -- one field after the other, each in front of the rest of the input
    refine toBytes_field_append (by omega) ?_
    iterate 12
      refine toBytes_field_append (by simp only [List.length_drop]; omega) ?_
      simp only [List.drop_drop]
    exact toBytes_field (by rw [List.length_drop, hrest])
  rw [hfields, ← hmagic, List.take_append_drop]

/-- `Decode` accepts the encodings of valid headers in front of a payload that
fits, and reads those headers. -/
theorem decode_eq_some_iff {bs : List UInt8} {h : AooLowLatencyPacketHeader} :
    decode bs = some h ↔
      h.valid = true ∧ bs.take 52 = h.bytes ∧ h.payloadBytes.toNat ≤ bs.length - 52 := by
  refine ⟨fun hdec => ?_, fun ⟨hv, hbytes, hfits⟩ => ?_⟩
  · unfold decode at hdec
    split at hdec
    next => cases hdec
    next hin =>
      rw [AOO_LOW_LATENCY_PACKET_HEADER_SIZE] at hin
      obtain ⟨hlen, hmagic⟩ := not_or.mp hin
      simp only at hdec
      split at hdec
      next => cases hdec
      next hok =>
        cases hdec
        rw [decodeRefuses_eq, Bool.or_eq_true, Bool.or_eq_true, not_or, not_or,
          Bool.not_eq_true', Bool.not_eq_false, decide_eq_true_eq, decide_eq_true_eq] at hok
        obtain ⟨⟨hv, -⟩, hfits⟩ := hok
        rw [headerSize_of_valid hv, not_lt] at hfits
        -- the fields lie within the first 52 bytes
        have hread : read (bs.drop 4) = read ((bs.take 52).drop 4) := by
          simp only [read, List.drop_drop, field_drop_take, Nat.reduceAdd, Nat.reduceLeDiff]
        refine ⟨hv, ?_, hfits⟩
        rw [hread]
        refine (bytes_read ?_ ?_).symm
        · rw [List.length_take]
          omega
        · rw [List.take_take]
          exact not_not.mp hmagic
  · have hsplit : bs = h.bytes ++ bs.drop 52 := by
      rw [← hbytes, List.take_append_drop]
    rw [hsplit]
    refine decode_bytes hv ?_
    rwa [List.length_drop]

theorem encodesTo_take_iff {bs : List UInt8} {h : AooLowLatencyPacketHeader} :
    (EncodesTo h (bs.take 52) ∧ h.payloadBytes.toNat ≤ bs.length - 52) ↔ decode bs = some h := by
  rw [encodesTo_iff, decode_eq_some_iff, and_assoc]

theorem overwrites_decode : Overwrites decode lowLatencyPacketHeaderDecode where
  accept := fun bs out h hd => by simp only [lowLatencyPacketHeaderDecode, hd]
  reject := fun bs out hd => by simp only [lowLatencyPacketHeaderDecode, hd]
  nullSource := fun _ => rfl
  nullOut := fun _ => rfl

/-- **The header codec is exact.** `Decode` accepts exactly the byte strings that
begin with what `Encode` writes for some header, with the announced payload behind
it; it reads that header, and `Encode` gives the 52 bytes back for what was read. A
rejected input leaves the caller's header alone. -/
theorem packetHeader_exact : ∀ (source : Option (List UInt8))
    (header : Option AooLowLatencyPacketHeader),
    ((lowLatencyPacketHeaderDecode source header).1 = .ok () ↔
      ∃ bs out h, source = some bs ∧ header = some out ∧ EncodesTo h (bs.take 52) ∧
        h.payloadBytes.toNat ≤ bs.length - 52) ∧
    (∀ bs out h, source = some bs → header = some out → EncodesTo h (bs.take 52) →
      h.payloadBytes.toNat ≤ bs.length - 52 →
      lowLatencyPacketHeaderDecode source header = (.ok (), some h)) ∧
    ((lowLatencyPacketHeaderDecode source header).1 = .ok () →
      ∃ bs h, source = some bs ∧ (lowLatencyPacketHeaderDecode source header).2 = some h ∧
        EncodesTo h (bs.take 52)) ∧
    ((lowLatencyPacketHeaderDecode source header).1 ≠ .ok () →
      (lowLatencyPacketHeaderDecode source header).2 = header) := by
  intro source header
  have hdec := overwrites_decode
  refine ⟨?_, fun bs out h hs ho henc hfits => ?_, fun hok => ?_, hdec.unchanged⟩
  · rw [hdec.ok_iff]
    simp only [encodesTo_take_iff]
  · rw [hs, ho]
    exact hdec.accept bs out h (encodesTo_take_iff.mp ⟨henc, hfits⟩)
  · obtain ⟨bs, out, h, hs, ho, hd⟩ := (hdec.ok_iff source header).mp hok
    refine ⟨bs, h, hs, ?_, (encodesTo_take_iff.mpr hd).1⟩
    rw [hs, ho, hdec.accept bs out h hd]

end AooLowLatencyPacketHeader

/-! ## The stream configuration -/

namespace AooLowLatencyStreamConfiguration

/-- `AooLowLatencyStreamConfiguration` as an object of the caller: the channel map
is an array of `AOO_LOW_LATENCY_MAX_CHANNELS` bytes, whatever its count says. -/
structure Object where
  val : AooLowLatencyStreamConfiguration
  mapSize : val.channelMap.length = AOO_LOW_LATENCY_MAX_CHANNELS
  deriving DecidableEq

/-- The fields in network byte order, behind the magic number; the whole channel
map, also the part behind its count. -/
def bytes (c : AooLowLatencyStreamConfiguration) : List UInt8 :=
  kConfigurationMagic ++ (toBytes 2 c.protocolVersion.toNat ++ (toBytes 1 c.profile.toNat ++
    (toBytes 1 c.pcmFormat.toNat ++ (toBytes 2 c.channelCount.toNat ++
    (toBytes 2 c.blockFrames.toNat ++ (toBytes 2 c.datagramBytes.toNat ++
    (toBytes 2 c.channelMapCount.toNat ++ (toBytes 4 c.sampleRate.toNat ++
    (toBytes 4 c.targetLatencyFrames.toNat ++ (toBytes 4 c.capabilities.toNat ++
    c.channelMap))))))))))

theorem mapSize_of_decode {source : List UInt8} {c : AooLowLatencyStreamConfiguration}
    (h : decode source = some c) : c.channelMap.length = AOO_LOW_LATENCY_MAX_CHANNELS := by
  unfold decode at h
  split at h
  next => cases h
  next hin =>
    have hlen := not_not.mp (not_or.mp hin).1
    rw [AOO_LOW_LATENCY_STREAM_CONFIGURATION_SIZE] at hlen
    simp only at h
    split at h
    next =>
      cases h
      simp only [read, List.length_take, List.length_drop, AOO_LOW_LATENCY_MAX_CHANNELS]
      omega
    next => cases h

/-- `aoo_lowLatencyStreamConfigurationValidate` -/
def lowLatencyStreamConfigurationValidate (configuration : Option Object) :
    Except AooError Unit :=
  match configuration with
  | some c => if c.val.validate then .ok () else .error .badArgument
  | none => .error .badArgument

/-- `aoo_lowLatencyStreamConfigurationEncode`: the error and the destination
afterwards. -/
def lowLatencyStreamConfigurationEncode (configuration : Option Object)
    (destination : Option (List UInt8)) : Except AooError Unit × Option (List UInt8) :=
  match destination, configuration with
  | some d, some c =>
    if d.length < AOO_LOW_LATENCY_STREAM_CONFIGURATION_SIZE ∨
        lowLatencyStreamConfigurationValidate (some c) ≠ .ok () then
      (.error .badArgument, some d)
    else (.ok (), some (writeAt d 0 c.val.bytes))
  | _, _ => (.error .badArgument, destination)

/-- `aoo_lowLatencyStreamConfigurationDecode`: the error and the caller's object
afterwards. -/
def lowLatencyStreamConfigurationDecode (source : Option (List UInt8))
    (configuration : Option Object) : Except AooError Unit × Option Object :=
  match source, configuration with
  | some bs, some out =>
    match h : decode bs with
    | some c => (.ok (), some ⟨c, mapSize_of_decode h⟩)
    | none => (.error .badFormat, some out)
  | _, _ => (.error .badFormat, configuration)

/-- `Encode` accepts the configuration and writes `bs`, into every destination with
room for it, and nothing behind it. -/
def EncodesTo (c : Object) (bs : List UInt8) : Prop :=
  ∀ d : List UInt8, AOO_LOW_LATENCY_STREAM_CONFIGURATION_SIZE ≤ d.length →
    lowLatencyStreamConfigurationEncode (some c) (some d) =
      (.ok (), some (bs ++ d.drop AOO_LOW_LATENCY_STREAM_CONFIGURATION_SIZE))

theorem bytes_length (c : Object) : c.val.bytes.length = 92 := by
  simp [bytes, kConfigurationMagic, c.mapSize, AOO_LOW_LATENCY_MAX_CHANNELS]

theorem validate_eq_ok_iff {c : Object} :
    lowLatencyStreamConfigurationValidate (some c) = .ok () ↔ c.val.validate = true := by
  rw [lowLatencyStreamConfigurationValidate]
  cases c.val.validate with
  | false => exact ⟨nofun, nofun⟩
  | true => exact ⟨fun _ => rfl, fun _ => rfl⟩

theorem encodesTo_iff {c : Object} {bs : List UInt8} :
    EncodesTo c bs ↔ c.val.validate = true ∧ bs = c.val.bytes := by
  refine ⟨fun henc => ?_, fun ⟨hv, hbs⟩ d hd => ?_⟩
  · have h0 := henc (List.replicate 92 0) (by
      rw [List.length_replicate, AOO_LOW_LATENCY_STREAM_CONFIGURATION_SIZE])
    simp only [lowLatencyStreamConfigurationEncode] at h0
    split at h0
    next => cases h0
    next hok =>
      refine ⟨validate_eq_ok_iff.mp (not_not.mp (not_or.mp hok).2), ?_⟩
      have h1 := (Option.some.inj (Prod.mk.inj h0).2).symm
      simpa [writeAt, AOO_LOW_LATENCY_STREAM_CONFIGURATION_SIZE, bytes_length] using h1
  · have hok : ¬ (d.length < AOO_LOW_LATENCY_STREAM_CONFIGURATION_SIZE ∨
        lowLatencyStreamConfigurationValidate (some c) ≠ .ok ()) :=
      not_or.mpr ⟨by omega, not_not.mpr (validate_eq_ok_iff.mpr hv)⟩
    simp only [lowLatencyStreamConfigurationEncode]
    rw [if_neg hok, hbs]
    simp only [writeAt, List.take_zero, List.nil_append, bytes_length, Nat.zero_add,
      AOO_LOW_LATENCY_STREAM_CONFIGURATION_SIZE]

/-- The fields read back in the order in which they were written. -/
theorem read_bytes (c : Object) : read (c.val.bytes.drop 4) = c.val := by
  obtain ⟨⟨version, profile, format, channels, block, datagram, count, rate, latency,
    capabilities, map⟩, hmap⟩ := c
  have htake : map.take AOO_LOW_LATENCY_MAX_CHANNELS = map := List.take_of_length_le hmap.le
  simp only [bytes, kConfigurationMagic, List.cons_append, List.nil_append, List.drop_succ_cons,
    List.drop_zero, read, mk.injEq]
  simp [drop_toBytes_append_of_le, htake]

/-- **What is read is written back.** -/
theorem bytes_read {bs : List UInt8} (hlen : bs.length = 92)
    (hmagic : bs.take 4 = kConfigurationMagic) : (read (bs.drop 4)).bytes = bs := by
  have hrest : (bs.drop 4).length = 88 := by
    rw [List.length_drop, hlen]
  have hfields : (read (bs.drop 4)).bytes = kConfigurationMagic ++ bs.drop 4 := by
    simp only [bytes, read, uint8_ofNat_field, uint16_ofNat_field, uint32_ofNat_field]
    generalize bs.drop 4 = xs at hrest ⊢
    congr 1
    -- one field after the other, each in front of the rest of the input
    refine toBytes_field_append (by omega) ?_
    iterate 9
      refine toBytes_field_append (by simp only [List.length_drop]; omega) ?_
      simp only [List.drop_drop]
    refine List.take_of_length_le ?_
    rw [List.length_drop, hrest, AOO_LOW_LATENCY_MAX_CHANNELS]
  rw [hfields, ← hmagic, List.take_append_drop]

/-- `Decode` accepts the encodings of the configurations that `Validate` accepts. -/
theorem decode_eq_some_iff {bs : List UInt8} {c : Object} :
    decode bs = some c.val ↔ c.val.validate = true ∧ bs = c.val.bytes := by
  refine ⟨fun hdec => ⟨validate_of_decode hdec, ?_⟩, fun ⟨hv, hbs⟩ => ?_⟩
  · unfold decode at hdec
    split at hdec
    next => cases hdec
    next hin =>
      obtain ⟨hlen, hmagic⟩ := not_or.mp hin
      simp only at hdec
      split at hdec
      next =>
        have hread := Option.some.inj hdec
        rw [← hread]
        exact (bytes_read (not_not.mp hlen) (not_not.mp hmagic)).symm
      next => cases hdec
  · have hin : ¬ (bs.length ≠ AOO_LOW_LATENCY_STREAM_CONFIGURATION_SIZE ∨
        bs.take 4 ≠ kConfigurationMagic) := by
      rw [hbs, bytes_length, AOO_LOW_LATENCY_STREAM_CONFIGURATION_SIZE]
      exact not_or.mpr ⟨fun h => h rfl, fun h => h rfl⟩
    rw [decode, if_neg hin, hbs, read_bytes]
    exact if_pos hv

/-! ### What `Validate` says about the channel map -/

/-- The loop over the channel map accepts distinct channels below the limit that
were not used before. -/
theorem channelMapOk_iff : ∀ (channels used : List UInt8), channelMapOk used channels = true ↔
    (∀ c ∈ channels, c.toNat < AOO_LOW_LATENCY_MAX_CHANNELS ∧ c ∉ used) ∧ channels.Nodup := by
  intro channels
  induction channels with
  | nil =>
    intro used
    exact ⟨fun _ => ⟨List.forall_mem_nil _, List.nodup_nil⟩, fun _ => rfl⟩
  | cons c cs ih =>
    intro used
    rw [channelMapOk, List.nodup_cons, List.forall_mem_cons]
    split
    next hbad =>
      rw [Bool.or_eq_true, decide_eq_true_eq, List.contains_iff_mem] at hbad
      refine ⟨nofun, fun ⟨⟨⟨hlt, hnew⟩, _⟩, _⟩ => ?_⟩
      exact absurd hbad (not_or.mpr ⟨by omega, hnew⟩)
    next hok =>
      rw [Bool.or_eq_true, decide_eq_true_eq, List.contains_iff_mem] at hok
      obtain ⟨hlt, hnew⟩ := not_or.mp hok
      rw [ih]
      refine ⟨fun ⟨hall, hnodup⟩ => ⟨⟨⟨by omega, hnew⟩, fun x hx => ?_⟩, fun hc => ?_, hnodup⟩,
        fun ⟨⟨_, hall⟩, hc, hnodup⟩ => ⟨fun x hx => ?_, hnodup⟩⟩
      · exact ⟨(hall x hx).1, fun hu => (hall x hx).2 (List.mem_cons_of_mem _ hu)⟩
      · exact (hall c hc).2 List.mem_cons_self
      · refine ⟨(hall x hx).1, fun hu => ?_⟩
        rcases List.mem_cons.mp hu with rfl | hu
        · exact hc hx
        · exact (hall x hx).2 hu

/-- The first `channelCount` entries of a valid map are channels that exist, each
once. -/
theorem channelMap_of_validate {c : Object} (hv : c.val.validate = true) :
    ∀ i < c.val.channelCount.toNat, ∃ channel : UInt8, c.val.channelMap[i]? = some channel ∧
      channel.toNat < AOO_LOW_LATENCY_MAX_CHANNELS ∧
      ∀ j < c.val.channelCount.toNat, c.val.channelMap[j]? = some channel → j = i := by
  simp only [validate, Bool.and_eq_true, beq_iff_eq, decide_eq_true_eq] at hv
  obtain ⟨⟨⟨⟨⟨⟨⟨⟨⟨⟨⟨hfront, hcount⟩, -⟩, -⟩, -⟩, -⟩, -⟩, -⟩, -⟩, -⟩, -⟩, hmap⟩ := hv
  have hmax := hfront.2
  rw [hcount] at hmap
  obtain ⟨hall, hnodup⟩ := (channelMapOk_iff _ _).mp hmap
  have hsize := c.mapSize
  intro i hi
  have hlt : i < (c.val.channelMap.take c.val.channelCount.toNat).length := by
    rw [List.length_take]
    omega
  have hget := List.getElem?_eq_getElem hlt
  refine ⟨_, (List.getElem?_take_of_lt hi).symm.trans hget, (hall _ (List.getElem_mem hlt)).1, ?_⟩
  intro j hj hsame
  have hjlt : j < (c.val.channelMap.take c.val.channelCount.toNat).length := by
    rw [List.length_take]
    omega
  have hgetj := (List.getElem?_take_of_lt hj).trans hsame
  exact (List.getElem?_inj hjlt hnodup).mp (hgetj.trans hget.symm)

/-- A valid configuration is one of the two profiles, with its format and its
capabilities. -/
theorem profile_of_validate {c : AooLowLatencyStreamConfiguration} (hv : c.validate = true) :
    c.capabilities.toNat &&& kRequiredCapabilities = kRequiredCapabilities ∧
      ((c.profile = kAooLowLatencyProfileDeterministicWired ∧
          c.pcmFormat = kAooLowLatencyPcmFloat32) ∨
        (c.profile = kAooLowLatencyProfileAdaptiveWireless ∧
          c.pcmFormat = kAooLowLatencyPcmInt24 ∧
          hasBit c.capabilities.toNat kAooLowLatencyCapabilityDeadlineResend = true)) := by
  simp only [validate, validProfile, Bool.and_eq_true, beq_iff_eq, bne_iff_ne,
    Bool.or_eq_true] at hv
  obtain ⟨⟨⟨⟨⟨⟨⟨⟨⟨⟨⟨⟨⟨⟨⟨-, hprofile⟩, -⟩, -⟩, -⟩, -⟩, -⟩, -⟩, -⟩, -⟩, -⟩, -⟩, hcap⟩, hwired⟩,
    hwireless⟩, -⟩ := hv
  refine ⟨hcap, ?_⟩
  rcases hprofile with hp | hp
  · exact Or.inl ⟨hp, hwired.resolve_left (fun hne => hne hp)⟩
  · exact Or.inr ⟨hp, hwireless.resolve_left (fun hne => hne hp)⟩

/-- `decode` with the size of the map it fills. -/
def decodeObject (bs : List UInt8) : Option Object :=
  match h : decode bs with
  | some c => some ⟨c, mapSize_of_decode h⟩
  | none => none

theorem decodeObject_eq_some_iff {bs : List UInt8} {c : Object} :
    decodeObject bs = some c ↔ decode bs = some c.val := by
  unfold decodeObject
  split
  next c' hd =>
    refine ⟨fun h => ?_, fun h => ?_⟩
    · rw [← Option.some.inj h]
      exact hd
    · obtain ⟨c, hc⟩ := c
      cases hd.symm.trans h
      rfl
  next hd =>
    rw [hd]
    exact ⟨nofun, nofun⟩

theorem decodeObject_iff_encodesTo {bs : List UInt8} {c : Object} :
    EncodesTo c bs ↔ decodeObject bs = some c := by
  rw [encodesTo_iff, decodeObject_eq_some_iff, decode_eq_some_iff]

theorem overwrites_decodeObject : Overwrites decodeObject lowLatencyStreamConfigurationDecode where
  accept := fun bs out c hd => by
    have h := decodeObject_eq_some_iff.mp hd
    unfold lowLatencyStreamConfigurationDecode
    simp only
    split
    next c' hd' =>
      rw [h] at hd'
      obtain ⟨c, hc⟩ := c
      cases hd'
      rfl
    next hd' =>
      rw [h] at hd'
      cases hd'
  reject := fun bs out hd => by
    unfold lowLatencyStreamConfigurationDecode
    simp only
    split
    next c' hd' =>
      have h := decodeObject_eq_some_iff (c := ⟨c', mapSize_of_decode hd'⟩) |>.mpr hd'
      rw [hd] at h
      cases h
    next => rfl
  nullSource := fun _ => rfl
  nullOut := fun _ => rfl

/-- **The configuration codec is exact.** `Decode` accepts exactly the encodings of
the configurations that `Validate` accepts; it returns that configuration, and
`Encode` gives the bytes back for it. A rejected input leaves the caller's object
alone. What `Validate` accepts maps its channels injectively below the limit and is
one of the two profiles with its format and its capabilities. -/
theorem streamConfiguration_exact :
    (∀ (source : Option (List UInt8)) (configuration : Option Object),
      ((lowLatencyStreamConfigurationDecode source configuration).1 = .ok () ↔
        ∃ bs out c, source = some bs ∧ configuration = some out ∧
          lowLatencyStreamConfigurationValidate (some c) = .ok () ∧ EncodesTo c bs) ∧
      (∀ bs out c, source = some bs → configuration = some out → EncodesTo c bs →
        lowLatencyStreamConfigurationDecode source configuration = (.ok (), some c)) ∧
      ((lowLatencyStreamConfigurationDecode source configuration).1 = .ok () →
        ∃ bs c, source = some bs ∧
          (lowLatencyStreamConfigurationDecode source configuration).2 = some c ∧
          lowLatencyStreamConfigurationValidate (some c) = .ok () ∧ EncodesTo c bs) ∧
      ((lowLatencyStreamConfigurationDecode source configuration).1 ≠ .ok () →
        (lowLatencyStreamConfigurationDecode source configuration).2 = configuration)) ∧
    ∀ c : Object, lowLatencyStreamConfigurationValidate (some c) = .ok () →
      (∀ i < c.val.channelCount.toNat, ∃ channel : UInt8, c.val.channelMap[i]? = some channel ∧
        channel.toNat < AOO_LOW_LATENCY_MAX_CHANNELS ∧
        ∀ j < c.val.channelCount.toNat, c.val.channelMap[j]? = some channel → j = i) ∧
      c.val.capabilities.toNat &&& kRequiredCapabilities = kRequiredCapabilities ∧
      ((c.val.profile = kAooLowLatencyProfileDeterministicWired ∧
          c.val.pcmFormat = kAooLowLatencyPcmFloat32) ∨
        (c.val.profile = kAooLowLatencyProfileAdaptiveWireless ∧
          c.val.pcmFormat = kAooLowLatencyPcmInt24 ∧
          hasBit c.val.capabilities.toNat kAooLowLatencyCapabilityDeadlineResend = true)) := by
  refine ⟨fun source configuration => ?_, fun c hok => ?_⟩
  · have hdec := overwrites_decodeObject
    -- an encoding is one of a configuration that `Validate` accepts
    have hvalid : ∀ c bs, EncodesTo c bs →
        lowLatencyStreamConfigurationValidate (some c) = .ok () := by
      intro c bs henc
      exact validate_eq_ok_iff.mpr (encodesTo_iff.mp henc).1
    refine ⟨?_, fun bs out c hs ho henc => ?_, fun hok => ?_, hdec.unchanged⟩
    · rw [hdec.ok_iff]
      refine ⟨fun ⟨bs, out, c, hs, ho, hd⟩ => ?_, fun ⟨bs, out, c, hs, ho, _, henc⟩ => ?_⟩
      · have henc := decodeObject_iff_encodesTo.mpr hd
        exact ⟨bs, out, c, hs, ho, hvalid c bs henc, henc⟩
      · exact ⟨bs, out, c, hs, ho, decodeObject_iff_encodesTo.mp henc⟩
    · rw [hs, ho]
      exact hdec.accept bs out c (decodeObject_iff_encodesTo.mp henc)
    · obtain ⟨bs, out, c, hs, ho, hd⟩ := (hdec.ok_iff source configuration).mp hok
      have henc := decodeObject_iff_encodesTo.mpr hd
      refine ⟨bs, c, hs, ?_, hvalid c bs henc, henc⟩
      rw [hs, ho, hdec.accept bs out c hd]
  · have hv := validate_eq_ok_iff.mp hok
    exact ⟨channelMap_of_validate hv, profile_of_validate hv⟩

end AooLowLatencyStreamConfiguration

end Aoo
