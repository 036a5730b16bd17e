import Aoo.Binmsg

/-!
# The low-latency extension

`low_latency.cpp`. A low-latency data packet carries a second header of 52 bytes
in front of its payload, and a stream is low-latency when its metadata decodes
to a configuration that `aoo_lowLatencyStreamConfigurationValidate` accepts.

`decode_bytes` says that the header codec loses nothing: what `Encode` writes is
what `Decode` reads. Both check the fields; their lists agree
(`decodeRefuses_eq_encodeRefuses`).
-/

namespace Aoo

open Lib

def AOO_LOW_LATENCY_PROTOCOL_VERSION : UInt16 := 1
def AOO_LOW_LATENCY_PACKET_HEADER_SIZE : Nat := 52
def AOO_LOW_LATENCY_MAX_CHANNELS : Nat := 64

def kAooLowLatencyProfileDeterministicWired : UInt8 := 1
def kAooLowLatencyProfileAdaptiveWireless : UInt8 := 2

def kAooLowLatencyPcmFloat32 : UInt8 := 1
def kAooLowLatencyPcmInt24 : UInt8 := 2

def kAooLowLatencyCapabilityDeadlineResend : Nat := 8

/-- `kRequiredCapabilities`: absolute sample position, channel map, dynamic
resampling. -/
def kRequiredCapabilities : Nat := 1 ||| 2 ||| 4

def validProfile (profile : UInt8) : Bool :=
  profile == kAooLowLatencyProfileDeterministicWired ||
    profile == kAooLowLatencyProfileAdaptiveWireless

def validPcmFormat (format : UInt8) : Bool :=
  format == kAooLowLatencyPcmFloat32 || format == kAooLowLatencyPcmInt24

def validProfileFormat (profile format : UInt8) : Bool :=
  (profile == kAooLowLatencyProfileDeterministicWired && format == kAooLowLatencyPcmFloat32) ||
    (profile == kAooLowLatencyProfileAdaptiveWireless && format == kAooLowLatencyPcmInt24)

/-! ## The packet header -/

structure AooLowLatencyPacketHeader where
  protocolVersion : UInt16
  headerSize : UInt16
  profile : UInt8
  pcmFormat : UInt8
  flags : UInt16
  streamId : UInt64
  sequence : UInt32
  absoluteSamplePosition : UInt64
  sourceTimestamp : UInt64
  blockFrames : UInt16
  fragmentIndex : UInt16
  fragmentCount : UInt16
  channelCount : UInt16
  payloadBytes : UInt32
  deriving DecidableEq, Repr

namespace AooLowLatencyPacketHeader

/-- What the fields of a header have to be. -/
def valid (h : AooLowLatencyPacketHeader) : Bool :=
  h.protocolVersion == AOO_LOW_LATENCY_PROTOCOL_VERSION &&
  h.headerSize.toNat == AOO_LOW_LATENCY_PACKET_HEADER_SIZE &&
  validProfile h.profile && validPcmFormat h.pcmFormat &&
  validProfileFormat h.profile h.pcmFormat &&
  h.blockFrames != 0 &&
  (if h.fragmentCount == 0 then h.fragmentIndex == 0 && h.payloadBytes == 0
    else decide (h.fragmentIndex < h.fragmentCount)) &&
  h.channelCount != 0 && decide (h.channelCount.toNat ≤ AOO_LOW_LATENCY_MAX_CHANNELS)

/-- The checks of `Encode`. -/
def encodeRefuses (h : AooLowLatencyPacketHeader) (destinationSize : Nat) : Bool :=
  decide (destinationSize < AOO_LOW_LATENCY_PACKET_HEADER_SIZE) ||
  h.protocolVersion != AOO_LOW_LATENCY_PROTOCOL_VERSION ||
  h.headerSize.toNat != AOO_LOW_LATENCY_PACKET_HEADER_SIZE ||
  !validProfile h.profile || !validPcmFormat h.pcmFormat ||
  !validProfileFormat h.profile h.pcmFormat ||
  h.blockFrames == 0 ||
  (if h.fragmentCount == 0 then h.fragmentIndex != 0 || h.payloadBytes != 0
    else decide (h.fragmentIndex ≥ h.fragmentCount)) ||
  h.channelCount == 0 || decide (h.channelCount.toNat > AOO_LOW_LATENCY_MAX_CHANNELS)

/-- The checks of `Decode` on the fields that it has read. -/
def decodeRefuses (h : AooLowLatencyPacketHeader) (sourceSize : Nat) : Bool :=
  h.protocolVersion != AOO_LOW_LATENCY_PROTOCOL_VERSION ||
  h.headerSize.toNat != AOO_LOW_LATENCY_PACKET_HEADER_SIZE ||
  decide (h.headerSize.toNat > sourceSize) ||
  !validProfile h.profile || !validPcmFormat h.pcmFormat ||
  !validProfileFormat h.profile h.pcmFormat ||
  h.blockFrames == 0 ||
  (if h.fragmentCount == 0 then h.fragmentIndex != 0 || h.payloadBytes != 0
    else decide (h.fragmentIndex ≥ h.fragmentCount)) ||
  h.channelCount == 0 || decide (h.channelCount.toNat > AOO_LOW_LATENCY_MAX_CHANNELS) ||
  decide (h.payloadBytes.toNat > sourceSize - h.headerSize.toNat)

/-- `kMagic`, the text `AOLL`. -/
def kMagic : List UInt8 := [0x41, 0x4f, 0x4c, 0x4c]

/-- The fields in network byte order, behind the magic number. -/
def bytes (h : AooLowLatencyPacketHeader) : List UInt8 :=
  kMagic ++ (toBytes 2 h.protocolVersion.toNat ++ (toBytes 2 h.headerSize.toNat ++
    (toBytes 1 h.profile.toNat ++ (toBytes 1 h.pcmFormat.toNat ++ (toBytes 2 h.flags.toNat ++
    (toBytes 8 h.streamId.toNat ++ (toBytes 4 h.sequence.toNat ++
    (toBytes 8 h.absoluteSamplePosition.toNat ++ (toBytes 8 h.sourceTimestamp.toNat ++
    (toBytes 2 h.blockFrames.toNat ++ (toBytes 2 h.fragmentIndex.toNat ++
    (toBytes 2 h.fragmentCount.toNat ++ (toBytes 2 h.channelCount.toNat ++
    toBytes 4 h.payloadBytes.toNat)))))))))))))

/-- `aoo_lowLatencyPacketHeaderEncode`: the bytes written, `none` for
`kAooErrorBadArgument`. -/
def encode (h : AooLowLatencyPacketHeader) (destinationSize : Nat) : Option (List UInt8) :=
  if h.encodeRefuses destinationSize then none else some h.bytes

/-- The fields behind the magic number, as they stand on the wire. -/
def read (bs : List UInt8) : AooLowLatencyPacketHeader where
  protocolVersion := UInt16.ofNat (field 2 bs)
  headerSize := UInt16.ofNat (field 2 (bs.drop 2))
  profile := UInt8.ofNat (field 1 (bs.drop 4))
  pcmFormat := UInt8.ofNat (field 1 (bs.drop 5))
  flags := UInt16.ofNat (field 2 (bs.drop 6))
  streamId := UInt64.ofNat (field 8 (bs.drop 8))
  sequence := UInt32.ofNat (field 4 (bs.drop 16))
  absoluteSamplePosition := UInt64.ofNat (field 8 (bs.drop 20))
  sourceTimestamp := UInt64.ofNat (field 8 (bs.drop 28))
  blockFrames := UInt16.ofNat (field 2 (bs.drop 36))
  fragmentIndex := UInt16.ofNat (field 2 (bs.drop 38))
  fragmentCount := UInt16.ofNat (field 2 (bs.drop 40))
  channelCount := UInt16.ofNat (field 2 (bs.drop 42))
  payloadBytes := UInt32.ofNat (field 4 (bs.drop 44))

/-- `aoo_lowLatencyPacketHeaderDecode`, `none` for `kAooErrorBadFormat`. The
payload must fit behind the header. -/
def decode (source : List UInt8) : Option AooLowLatencyPacketHeader :=
  if source.length < AOO_LOW_LATENCY_PACKET_HEADER_SIZE ∨ source.take 4 ≠ kMagic then none
  else
    let h := read (source.drop 4)
    if h.decodeRefuses source.length then none else some h

theorem headerSize_of_valid {h : AooLowLatencyPacketHeader} (hv : h.valid = true) :
    h.headerSize.toNat = 52 := by
  simp only [valid, Bool.and_eq_true, beq_iff_eq, AOO_LOW_LATENCY_PACKET_HEADER_SIZE] at hv
  exact hv.1.1.1.1.1.1.1.2

/-- What the fragment fields must not be. -/
theorem not_valid_fragment (h : AooLowLatencyPacketHeader) :
    (!if h.fragmentCount == 0 then h.fragmentIndex == 0 && h.payloadBytes == 0
      else decide (h.fragmentIndex < h.fragmentCount)) =
    if h.fragmentCount == 0 then h.fragmentIndex != 0 || h.payloadBytes != 0
      else decide (h.fragmentIndex ≥ h.fragmentCount) := by
  split
  · rw [Bool.not_and]
    rfl
  · rw [← decide_not, decide_eq_decide]
    exact UInt16.not_lt

/-- `Encode` refuses a destination that is too small and a header that is not valid. -/
theorem encodeRefuses_eq (h : AooLowLatencyPacketHeader) (destinationSize : Nat) :
    h.encodeRefuses destinationSize =
      (decide (destinationSize < AOO_LOW_LATENCY_PACKET_HEADER_SIZE) || !h.valid) := by
  simp only [encodeRefuses, valid, Bool.not_and, not_valid_fragment, bne, Bool.not_not,
    ← decide_not, Nat.not_le, Bool.or_assoc, gt_iff_lt]

/-- `Decode` refuses a header that is not valid, and one that announces more than there is. -/
theorem decodeRefuses_eq (h : AooLowLatencyPacketHeader) (sourceSize : Nat) :
    h.decodeRefuses sourceSize =
      (!h.valid || decide (sourceSize < h.headerSize.toNat) ||
        decide (sourceSize - h.headerSize.toNat < h.payloadBytes.toNat)) := by
  simp only [decodeRefuses, valid, Bool.not_and, not_valid_fragment, bne, Bool.not_not,
    ← decide_not, Nat.not_le, gt_iff_lt]
  ac_rfl

/-- **The two lists of checks agree** on every header with a payload that fits. -/
theorem decodeRefuses_eq_encodeRefuses (h : AooLowLatencyPacketHeader) {size : Nat}
    (hsize : AOO_LOW_LATENCY_PACKET_HEADER_SIZE ≤ size)
    (hfits : h.payloadBytes.toNat ≤ size - AOO_LOW_LATENCY_PACKET_HEADER_SIZE) :
    h.decodeRefuses size = h.encodeRefuses size := by
  rw [decodeRefuses_eq, encodeRefuses_eq, decide_eq_false (not_lt.mpr hsize), Bool.false_or]
  cases hv : h.valid with
  | false => rfl
  | true =>
    rw [AOO_LOW_LATENCY_PACKET_HEADER_SIZE] at hsize hfits
    rw [headerSize_of_valid hv, decide_eq_false (not_lt.mpr hsize),
      decide_eq_false (not_lt.mpr hfits)]
    rfl

theorem encode_eq (h : AooLowLatencyPacketHeader) {destinationSize : Nat}
    (hsize : AOO_LOW_LATENCY_PACKET_HEADER_SIZE ≤ destinationSize) :
    h.encode destinationSize = if h.valid then some h.bytes else none := by
  rw [encode, encodeRefuses_eq, decide_eq_false (not_lt.mpr hsize), Bool.false_or]
  cases h.valid <;> rfl

theorem encode_of_not_valid {h : AooLowLatencyPacketHeader} (hv : h.valid = false)
    (destinationSize : Nat) : h.encode destinationSize = none := by
  rw [encode, encodeRefuses_eq, hv, Bool.not_false, Bool.or_true, if_pos rfl]

@[simp] theorem bytes_length (h : AooLowLatencyPacketHeader) : h.bytes.length = 52 := by
  simp [bytes, kMagic]

/-- The fields read back in the order in which they were written. -/
theorem read_bytes (h : AooLowLatencyPacketHeader) (rest : List UInt8) :
    read ((h.bytes ++ rest).drop 4) = h := by
  obtain ⟨version, size, profile, format, flags, stream, sequence, position, timestamp, block,
    index, count, channels, payload⟩ := h
  simp only [bytes, kMagic, List.append_assoc, List.cons_append, List.nil_append,
    List.drop_succ_cons, List.drop_zero, read, mk.injEq]
  simp [drop_toBytes_append_of_le]

/-- **The header codec loses nothing**: a valid header in front of a payload of
at least the announced size is read back. -/
theorem decode_bytes {h : AooLowLatencyPacketHeader} {rest : List UInt8} (hv : h.valid = true)
    (hlen : h.payloadBytes.toNat ≤ rest.length) : decode (h.bytes ++ rest) = some h := by
  have hmagic : (h.bytes ++ rest).take 4 = kMagic := by
    simp [bytes, kMagic]
  have hlength : (h.bytes ++ rest).length = 52 + rest.length := by
    rw [List.length_append, bytes_length]
  have haccepts : h.decodeRefuses (h.bytes ++ rest).length = false := by
    rw [decodeRefuses_eq, hv, headerSize_of_valid hv, hlength, Bool.not_true, Bool.false_or,
      decide_eq_false (by omega), decide_eq_false (by omega)]
    rfl
  rw [decode, if_neg (by
    rw [hlength, AOO_LOW_LATENCY_PACKET_HEADER_SIZE]
    exact fun hc => hc.elim (by omega) (fun hne => hne hmagic)), read_bytes]
  simp only [haccepts, Bool.false_eq_true, if_false]

end AooLowLatencyPacketHeader

/-! ## The stream configuration -/

structure AooLowLatencyStreamConfiguration where
  protocolVersion : UInt16
  profile : UInt8
  pcmFormat : UInt8
  channelCount : UInt16
  blockFrames : UInt16
  datagramBytes : UInt16
  channelMapCount : UInt16
  sampleRate : UInt32
  targetLatencyFrames : UInt32
  capabilities : UInt32
  channelMap : List UInt8
  deriving DecidableEq, Repr

namespace AooLowLatencyStreamConfiguration

/-- The loop over the channel map: every channel exists and is used once. -/
def channelMapOk (used : List UInt8) : List UInt8 → Bool
  | [] => true
  | channel :: channels =>
    if channel.toNat ≥ AOO_LOW_LATENCY_MAX_CHANNELS || used.contains channel then false
    else channelMapOk (channel :: used) channels

/-- `aoo_lowLatencyStreamConfigurationValidate` -/
def validate (c : AooLowLatencyStreamConfiguration) : Bool :=
  c.protocolVersion == AOO_LOW_LATENCY_PROTOCOL_VERSION &&
  validProfile c.profile && validPcmFormat c.pcmFormat &&
  c.channelCount != 0 && decide (c.channelCount.toNat ≤ AOO_LOW_LATENCY_MAX_CHANNELS) &&
  c.channelMapCount == c.channelCount &&
  decide (16 ≤ c.blockFrames.toNat) &&
  decide (8000 ≤ c.sampleRate.toNat) && decide (c.sampleRate.toNat ≤ 384000) &&
  decide (256 ≤ c.datagramBytes.toNat) &&
  decide (c.datagramBytes.toNat ≤ AOO_MAX_PACKET_SIZE) &&
  decide (c.blockFrames.toNat ≤ c.targetLatencyFrames.toNat) &&
  c.capabilities.toNat &&& kRequiredCapabilities == kRequiredCapabilities &&
  (c.profile != kAooLowLatencyProfileDeterministicWired ||
    c.pcmFormat == kAooLowLatencyPcmFloat32) &&
  (c.profile != kAooLowLatencyProfileAdaptiveWireless ||
    (c.pcmFormat == kAooLowLatencyPcmInt24 &&
      hasBit c.capabilities.toNat kAooLowLatencyCapabilityDeadlineResend)) &&
  channelMapOk [] (c.channelMap.take c.channelMapCount.toNat)

def AOO_LOW_LATENCY_STREAM_CONFIGURATION_SIZE : Nat := 92

/-- `kConfigurationMagic`, the text `AOLS`. -/
def kConfigurationMagic : List UInt8 := [0x41, 0x4f, 0x4c, 0x53]

/-- The fields behind the magic number, as they stand on the wire. -/
def read (bs : List UInt8) : AooLowLatencyStreamConfiguration where
  protocolVersion := UInt16.ofNat (field 2 bs)
  profile := UInt8.ofNat (field 1 (bs.drop 2))
  pcmFormat := UInt8.ofNat (field 1 (bs.drop 3))
  channelCount := UInt16.ofNat (field 2 (bs.drop 4))
  blockFrames := UInt16.ofNat (field 2 (bs.drop 6))
  datagramBytes := UInt16.ofNat (field 2 (bs.drop 8))
  channelMapCount := UInt16.ofNat (field 2 (bs.drop 10))
  sampleRate := UInt32.ofNat (field 4 (bs.drop 12))
  targetLatencyFrames := UInt32.ofNat (field 4 (bs.drop 16))
  capabilities := UInt32.ofNat (field 4 (bs.drop 20))
  channelMap := (bs.drop 24).take AOO_LOW_LATENCY_MAX_CHANNELS

/-- `aoo_lowLatencyStreamConfigurationDecode`, `none` for `kAooErrorBadFormat`. -/
def decode (source : List UInt8) : Option AooLowLatencyStreamConfiguration :=
  if source.length ≠ AOO_LOW_LATENCY_STREAM_CONFIGURATION_SIZE ∨
      source.take 4 ≠ kConfigurationMagic then none
  else
    let c := read (source.drop 4)
    if c.validate then some c else none

theorem validate_of_decode {source : List UInt8} {c : AooLowLatencyStreamConfiguration}
    (h : decode source = some c) : c.validate = true := by
  unfold decode at h
  split at h
  next => cases h
  next =>
    simp only at h
    split at h
    next hv =>
      cases h
      exact hv
    next => cases h

/-- What a valid configuration puts into packet headers passes the header's own
checks. -/
theorem header_fields_ok {c : AooLowLatencyStreamConfiguration} (h : c.validate = true) :
    c.protocolVersion = AOO_LOW_LATENCY_PROTOCOL_VERSION ∧ validProfile c.profile = true ∧
      validPcmFormat c.pcmFormat = true ∧ validProfileFormat c.profile c.pcmFormat = true ∧
      c.blockFrames ≠ 0 ∧ c.channelCount ≠ 0 ∧
      c.channelCount.toNat ≤ AOO_LOW_LATENCY_MAX_CHANNELS := by
  simp only [validate, Bool.and_eq_true, beq_iff_eq, bne_iff_ne, decide_eq_true_eq,
    Bool.or_eq_true] at h
  obtain ⟨⟨⟨⟨⟨⟨⟨⟨⟨⟨⟨⟨⟨⟨⟨hversion, hprofile⟩, hformat⟩, hchannels⟩, hmax⟩, -⟩, hblock⟩, -⟩, -⟩, -⟩,
    -⟩, -⟩, -⟩, hwired⟩, hwireless⟩, -⟩ := h
  refine ⟨hversion, hprofile, hformat, ?_, fun hzero => ?_, hchannels, hmax⟩
  · simp only [validProfile, Bool.or_eq_true, beq_iff_eq] at hprofile
    simp only [validProfileFormat, Bool.or_eq_true, Bool.and_eq_true, beq_iff_eq]
    rcases hprofile with hp | hp
    · exact Or.inl ⟨hp, hwired.resolve_left (fun hne => hne hp)⟩
    · exact Or.inr ⟨hp, (hwireless.resolve_left (fun hne => hne hp)).1⟩
  · rw [hzero] at hblock
    exact absurd hblock (by decide)

end AooLowLatencyStreamConfiguration

end Aoo
