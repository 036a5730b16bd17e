import Aoo.Stream.Arrival
import Aoo.Stream.Start

/-!
# Decoding PCM

The decoder of `pcm.cpp` takes the number of channels and the size of a sample from the
format that `validate_format` has let through, and turns the bytes of a block into samples. The
buffer for the samples is a function that is `none` where nothing has been written yet; the
samples are of any type, and how a sample is read from its bytes is a parameter.

`validate_format` repairs most fields, but it lets the bit depth `kAooPcmBitDepthSize` pass, for
which `bytes_per_sample` has no size (its assertion is not compiled in). And the decoder refuses a
payload with too many samples, but not one with too few. `decode_fills_iff` says when the output is
complete, and `decodeBlock_whole_iff` what that means for the block that the sink hands on.
-/

namespace Aoo.Stream.Pcm

open Lib SourceDesc

variable {S : Type}

def kAooPcmInt8 : Int := 0
def kAooPcmInt16 : Int := 1
def kAooPcmFloat64 : Int := 4

def kAooErrorInsufficientBuffer : AooError := .other 14

/-- `bytes_per_sample` -/
def bytesPerSample (bitdepth : Int) : Int :=
  if bitdepth = kAooPcmInt8 then 1
  else if bitdepth = kAooPcmInt16 then 2
  else if bitdepth = kAooPcmInt24 then 3
  else if bitdepth = kAooPcmFloat32 then 4
  else if bitdepth = kAooPcmFloat64 then 8
  else 0

/-- `PcmCodec` -/
structure PcmCodec where
  numChannels : Int := 0
  sampleSize : Int := -1
  deriving DecidableEq, Repr

/-- `PcmCodec_setup`, with the codec. -/
def setupCodec (f : AooFormatStorage) : Except AooError (PcmCodec × AooFormatStorage) :=
  match validateFormat f with
  | none => .error .badArgument
  | some f => .ok (⟨f.numChannels, bytesPerSample f.bitDepth⟩, f)

/-- A format of a peer: its extension is read, and the decoder is set up. -/
def acceptFormat (header : AooFormat) (extension : List UInt8) :
    Except AooError (PcmCodec × AooFormatStorage) := do
  let bitDepth ← deserialize extension
  setupCodec { header with bitDepth }

/-- How samples are read from their bytes, and the sample that is silent. -/
structure SampleReaders (S : Type) where
  int8ToSample : List UInt8 → S
  int16ToSample : List UInt8 → S
  int24ToSample : List UInt8 → S
  float32ToSample : List UInt8 → S
  float64ToSample : List UInt8 → S
  silence : S

/-- The cases of `PcmCodec_decode`. -/
def SampleReaders.forSize (r : SampleReaders S) (samplesize : Int) : Option (List UInt8 → S) :=
  if samplesize = 1 then some r.int8ToSample
  else if samplesize = 2 then some r.int16ToSample
  else if samplesize = 3 then some r.int24ToSample
  else if samplesize = 4 then some r.float32ToSample
  else if samplesize = 8 then some r.float64ToSample
  else none

/-- A loop that writes `count` samples from position `i` on. -/
def fillSamples (f : Nat → S) : (count i : Nat) → (Nat → Option S) → Nat → Option S
  | 0, _, out => out
  | count + 1, i, out => fillSamples f count (i + 1) (Function.update out i (some (f i)))

/-- `blob_to_samples` -/
def blobToSamples (convfn : List UInt8 → S) (samplesize : Int) (inData : List UInt8)
    (ninsamples : Int) (out : Nat → Option S) : Nat → Option S :=
  fillSamples (fun i => convfn ((inData.drop (i * samplesize.toNat)).take samplesize.toNat))
    ninsamples.toNat 0 out

/-- An integer is divided by zero. -/
inductive DivisionByZero
  | trap
  deriving DecidableEq, Repr

/-- What `PcmCodec_decode` returns and leaves behind. -/
structure Decoded (S : Type) where
  /-- The error, if it does not return `kAooOk`. -/
  error : Option AooError
  outSamples : Nat → Option S
  frameSize : Int

/-- `/` -/
def divide (n d : Int) : Except DivisionByZero Int :=
  if d = 0 then .error .trap else .ok (n.tdiv d)

/-- `PcmCodec_decode`; `inData` is a null pointer for a block that was dropped. -/
def decode (r : SampleReaders S) (dec : PcmCodec) (inData : Option (List UInt8))
    (outSamples : Nat → Option S) (frameSize : Int) : Except DivisionByZero (Decoded S) := do
  let nchannels := dec.numChannels
  let noutsamples := toInt32 (frameSize * nchannels)
  match inData with
  | none =>
    let outSamples := fillSamples (fun _ => r.silence) noutsamples.toNat 0 outSamples
    return ⟨none, outSamples, frameSize⟩
  | some inData =>
    let samplesize := dec.sampleSize
    let ninsamples ← divide inData.length samplesize
    if ninsamples > noutsamples then
      return ⟨some kAooErrorInsufficientBuffer, outSamples, frameSize⟩
    else
      match r.forSize samplesize with
      | none => return ⟨some .badArgument, outSamples, frameSize⟩
      | some convfn =>
        let outSamples := blobToSamples convfn samplesize inData ninsamples outSamples
        let frameSize ← divide ninsamples nchannels
        return ⟨none, outSamples, frameSize⟩

/-! ## Formats that were accepted -/

theorem fillSamples_apply (f : Nat → S) :
    ∀ (count i : Nat) (out : Nat → Option S) (j : Nat),
      fillSamples f count i out j = if i ≤ j ∧ j < i + count then some (f j) else out j := by
  intro count
  induction count with
  | zero =>
    intro i out j
    rw [fillSamples, if_neg (by omega)]
  | succ count ih =>
    intro i out j
    rw [fillSamples, ih]
    by_cases hj : j = i
    · subst hj
      rw [if_neg (by omega), if_pos (by omega), Function.update_self]
    · rw [Function.update_of_ne hj]
      by_cases hrange : i + 1 ≤ j ∧ j < i + 1 + count
      · rw [if_pos hrange, if_pos (by omega)]
      · rw [if_neg hrange, if_neg (by omega)]

/-- What `validate_format` guarantees. -/
structure Valid (f : AooFormatStorage) : Prop where
  blockSize : 0 < f.blockSize
  numChannels : 0 < f.numChannels ∧ f.numChannels ≤ 255
  bitDepth : 0 ≤ f.bitDepth ∧ f.bitDepth ≤ kAooPcmBitDepthSize

theorem valid_of_validateFormat {f g : AooFormatStorage} (h : validateFormat f = some g) :
    Valid g := by
  unfold validateFormat at h
  split at h
  next => cases h
  next =>
    cases h
    refine ⟨?_, ?_, ?_⟩
    · dsimp only
      split <;> omega
    · dsimp only
      split <;> omega
    · dsimp only
      unfold kAooPcmBitDepthSize kAooPcmFloat32
      split <;> omega

/-- **The one bit depth without a size** is the number of bit depths. -/
theorem bytesPerSample_cases {f : AooFormatStorage} (h : Valid f) :
    (f.bitDepth = kAooPcmBitDepthSize ∧ bytesPerSample f.bitDepth = 0) ∨
      (f.bitDepth ≠ kAooPcmBitDepthSize ∧ 0 < bytesPerSample f.bitDepth ∧
        ∀ r : SampleReaders S, ∃ convfn, r.forSize (bytesPerSample f.bitDepth) = some convfn) := by
  obtain ⟨h0, h5⟩ := h.bitDepth
  have hlimit : kAooPcmBitDepthSize = 5 := rfl
  have hcases : f.bitDepth = 0 ∨ f.bitDepth = 1 ∨ f.bitDepth = 2 ∨ f.bitDepth = 3 ∨
      f.bitDepth = 4 ∨ f.bitDepth = 5 := by
    omega
  rcases hcases with h | h | h | h | h | h
  · rw [h]
    exact .inr ⟨by decide, by decide, fun r => ⟨r.int8ToSample, rfl⟩⟩
  · rw [h]
    exact .inr ⟨by decide, by decide, fun r => ⟨r.int16ToSample, rfl⟩⟩
  · rw [h]
    exact .inr ⟨by decide, by decide, fun r => ⟨r.int24ToSample, rfl⟩⟩
  · rw [h]
    exact .inr ⟨by decide, by decide, fun r => ⟨r.float32ToSample, rfl⟩⟩
  · rw [h]
    exact .inr ⟨by decide, by decide, fun r => ⟨r.float64ToSample, rfl⟩⟩
  · rw [h]
    exact .inl ⟨rfl, rfl⟩

theorem setupCodec_ok {f fmt : AooFormatStorage} {dec : PcmCodec}
    (h : setupCodec f = .ok (dec, fmt)) :
    validateFormat f = some fmt ∧ dec = ⟨fmt.numChannels, bytesPerSample fmt.bitDepth⟩ := by
  unfold setupCodec at h
  split at h
  next => cases h
  next g hg =>
    cases h
    exact ⟨hg, rfl⟩

theorem valid_of_acceptFormat {header : AooFormat} {extension : List UInt8} {dec : PcmCodec}
    {fmt : AooFormatStorage} (h : acceptFormat header extension = .ok (dec, fmt)) :
    Valid fmt ∧ dec = ⟨fmt.numChannels, bytesPerSample fmt.bitDepth⟩ := by
  unfold acceptFormat at h
  cases hext : deserialize extension with
  | error e =>
    rw [hext] at h
    cases h
  | ok bitDepth =>
    rw [hext] at h
    obtain ⟨hvalidate, hdec⟩ := setupCodec_ok h
    exact ⟨valid_of_validateFormat hvalidate, hdec⟩

/-! ## When the output is complete -/

/-- The decoder does not divide by zero, and if it returns `kAooOk`, then it has written the
requested samples and leaves the frame size as it was. -/
def Fills (numChannels frameSize : Int) (result : Except DivisionByZero (Decoded S)) : Prop :=
  ∃ d, result = .ok d ∧ (d.error = none →
    (∀ i : Nat, (i : Int) < frameSize * numChannels → (d.outSamples i).isSome = true) ∧
      d.frameSize = frameSize)

/-- The whole samples in a payload. -/
def payloadSamples (fmt : AooFormatStorage) (payload : List UInt8) : Int :=
  (payload.length : Int) / bytesPerSample fmt.bitDepth

/-- The condition on the format and the payload: the product of the sizes fits `int32_t` where
nothing is checked, the bit depth is one, and a payload that is not too long has exactly as many
samples as requested. -/
def Complete (fmt : AooFormatStorage) (frameSize : Int) : Option (List UInt8) → Prop
  | none => frameSize * fmt.numChannels < 2147483648
  | some payload =>
    fmt.bitDepth ≠ kAooPcmBitDepthSize ∧
      (toInt32 (frameSize * fmt.numChannels) < payloadSamples fmt payload ∨
        payloadSamples fmt payload = frameSize * fmt.numChannels)

theorem complete_some (fmt : AooFormatStorage) (frameSize : Int) (payload : List UInt8) :
    Complete fmt frameSize (some payload) ↔ fmt.bitDepth ≠ kAooPcmBitDepthSize ∧
      (toInt32 (frameSize * fmt.numChannels) < payloadSamples fmt payload ∨
        payloadSamples fmt payload = frameSize * fmt.numChannels) := Iff.rfl

/-- A product that is too large becomes smaller. -/
theorem toInt32_le {v : Int} (h : 0 ≤ v) : toInt32 v ≤ v ∧ toInt32 v < 2147483648 := by
  unfold toInt32 signed unsigned
  rw [Int.bmod_def]
  omega

variable {fmt : AooFormatStorage} {dec : PcmCodec}

theorem decode_none (r : SampleReaders S) (dec : PcmCodec) (out : Nat → Option S)
    (frameSize : Int) :
    decode r dec none out frameSize = .ok ⟨none, fillSamples (fun _ => r.silence)
      (toInt32 (frameSize * dec.numChannels)).toNat 0 out, frameSize⟩ := rfl

/-- A block that was dropped is filled with silence, as far as the product goes. -/
theorem fills_none_iff (r : SampleReaders S) (fmt : AooFormatStorage) (frameSize : Int) :
    Fills fmt.numChannels frameSize
        (decode r ⟨fmt.numChannels, bytesPerSample fmt.bitDepth⟩ none (fun _ => none) frameSize) ↔
      frameSize * fmt.numChannels < 2147483648 := by
  rw [decode_none]
  unfold Fills
  generalize frameSize * fmt.numChannels = p
  constructor
  · rintro ⟨d, hd, hfilled⟩
    cases hd
    by_contra hlarge
    -- The last requested sample is missing.
    obtain ⟨hle, hlt⟩ := toInt32_le (v := p) (by omega)
    have hlast := (hfilled rfl).1 (p - 1).toNat (by omega)
    dsimp only at hlast
    rw [fillSamples_apply, if_neg (by omega)] at hlast
    cases hlast
  · intro hsmall
    refine ⟨_, rfl, fun _ => ⟨fun i hi => ?_, rfl⟩⟩
    have heq : toInt32 p = p := toInt32_of_range (by omega) hsmall
    dsimp only
    rw [fillSamples_apply, heq, if_pos (by omega)]
    rfl

/-- A payload under a format with a sample size. -/
theorem decode_some (r : SampleReaders S) (hvalid : Valid fmt) (payload : List UInt8)
    (out : Nat → Option S) (frameSize : Int) {convfn : List UInt8 → S}
    (hpos : 0 < bytesPerSample fmt.bitDepth)
    (hconv : r.forSize (bytesPerSample fmt.bitDepth) = some convfn) :
    decode r ⟨fmt.numChannels, bytesPerSample fmt.bitDepth⟩ (some payload) out frameSize =
      .ok (if toInt32 (frameSize * fmt.numChannels) < payloadSamples fmt payload then
        ⟨some kAooErrorInsufficientBuffer, out, frameSize⟩
      else ⟨none, blobToSamples convfn (bytesPerSample fmt.bitDepth) payload
        (payloadSamples fmt payload) out, payloadSamples fmt payload / fmt.numChannels⟩) := by
  have hsamples : divide payload.length (bytesPerSample fmt.bitDepth) =
      .ok (payloadSamples fmt payload) := by
    unfold divide payloadSamples
    rw [if_neg (by omega), Int.tdiv_eq_ediv_of_nonneg (by omega)]
  have hnonneg : 0 ≤ payloadSamples fmt payload := Int.ediv_nonneg (by omega) (by omega)
  have hframes : divide (payloadSamples fmt payload) fmt.numChannels =
      .ok (payloadSamples fmt payload / fmt.numChannels) := by
    have hchannels := hvalid.numChannels.1
    unfold divide
    rw [if_neg (by omega), Int.tdiv_eq_ediv_of_nonneg hnonneg]
  unfold decode
  simp only [hsamples, hconv]
  split
  next hmore =>
    change (if payloadSamples fmt payload > toInt32 (frameSize * fmt.numChannels) then _ else _) = _
    rw [if_pos hmore]
    rfl
  next hmore =>
    change (if payloadSamples fmt payload > toInt32 (frameSize * fmt.numChannels) then _ else _) = _
    rw [if_neg hmore, hframes]
    rfl

/-- A payload fills the output exactly if it is refused, or has as many samples as were
requested. -/
theorem fills_some_iff (r : SampleReaders S) (hvalid : Valid fmt) (payload : List UInt8)
    (frameSize : Int) :
    Fills fmt.numChannels frameSize (decode r ⟨fmt.numChannels, bytesPerSample fmt.bitDepth⟩
        (some payload) (fun _ => none) frameSize) ↔
      Complete fmt frameSize (some payload) := by
  rcases bytesPerSample_cases (S := S) hvalid with ⟨hdepth, hsize⟩ | ⟨hdepth, hsize, hconv⟩
  · -- The sample size is zero.
    refine iff_of_false ?_ fun h => h.1 hdepth
    rintro ⟨d, hd, -⟩
    rw [hsize] at hd
    cases hd
  obtain ⟨convfn, hconvfn⟩ := hconv r
  rw [decode_some r hvalid payload _ frameSize hsize hconvfn]
  have hchannels := hvalid.numChannels.1
  have hnonneg : 0 ≤ payloadSamples fmt payload := Int.ediv_nonneg (by omega) (by omega)
  rw [complete_some, and_iff_right hdepth]
  generalize payloadSamples fmt payload = n at hnonneg ⊢
  by_cases hmore : toInt32 (frameSize * fmt.numChannels) < n
  · rw [if_pos hmore]
    exact iff_of_true ⟨_, rfl, fun h => by cases h⟩ (.inl hmore)
  · rw [if_neg hmore, or_iff_right hmore]
    constructor
    · rintro ⟨d, hd, hfilled⟩
      cases hd
      obtain ⟨hwritten, hframe⟩ := hfilled rfl
      have hframe : n / fmt.numChannels = frameSize := hframe
      have hframe0 : 0 ≤ frameSize := hframe ▸ Int.ediv_nonneg hnonneg (by omega)
      have hproduct : 0 ≤ frameSize * fmt.numChannels := Int.mul_nonneg hframe0 (by omega)
      have hle := (toInt32_le hproduct).1
      by_contra hne
      have hmissing := hwritten n.toNat (by omega)
      dsimp only [blobToSamples] at hmissing
      rw [fillSamples_apply, if_neg (by omega)] at hmissing
      cases hmissing
    · rintro rfl
      refine ⟨_, rfl, fun _ => ⟨fun i hi => ?_, Int.mul_ediv_cancel _ (by omega)⟩⟩
      dsimp only [blobToSamples]
      rw [fillSamples_apply, if_pos (by omega)]
      rfl

/-- **When decoding is total and fills its output**, for every format that `deserialize` and the
setup of the decoder accept, every payload and every frame size. -/
theorem decode_fills_iff (r : SampleReaders S) {header : AooFormat} {extension : List UInt8}
    (haccept : acceptFormat header extension = .ok (dec, fmt)) (payload : Option (List UInt8))
    (frameSize : Int) :
    Fills fmt.numChannels frameSize (decode r dec payload (fun _ => none) frameSize) ↔
      Complete fmt frameSize payload := by
  obtain ⟨hvalid, rfl⟩ := valid_of_acceptFormat haccept
  cases payload with
  | none => exact fills_none_iff r fmt frameSize
  | some payload => exact fills_some_iff r hvalid payload frameSize

/-! ## The block that the sink hands on -/

/-- `source_desc::try_decode_block`, the part with the decoder: a block that is not decoded is
silent. -/
def decodeBlock (r : SampleReaders S) (dec : PcmCodec) (format : AooFormatStorage)
    (payload : Option (List UInt8)) : Except DivisionByZero (Decoded S) := do
  let framesize := format.blockSize
  let bufsize := toInt32 (framesize * format.numChannels)
  let d ← decode r dec payload (fun _ => none) framesize
  if d.error.isSome then
    return { d with outSamples := fillSamples (fun _ => r.silence) bufsize.toNat 0 d.outSamples }
  else return d

theorem decodeBlock_ok (r : SampleReaders S) (format : AooFormatStorage)
    {payload : Option (List UInt8)} {d : Decoded S}
    (h : decode r dec payload (fun _ => none) format.blockSize = .ok d) (hd : d.error = none) :
    decodeBlock r dec format payload = .ok d := by
  unfold decodeBlock
  simp only [h]
  change (if d.error.isSome = true then _ else _) = _
  rw [hd]
  rfl

theorem decodeBlock_error (r : SampleReaders S) (format : AooFormatStorage)
    {payload : Option (List UInt8)} {d : Decoded S} {e : AooError}
    (h : decode r dec payload (fun _ => none) format.blockSize = .ok d) (hd : d.error = some e) :
    decodeBlock r dec format payload = .ok { d with
      outSamples := fillSamples (fun _ => r.silence)
        (toInt32 (format.blockSize * format.numChannels)).toNat 0 d.outSamples } := by
  unfold decodeBlock
  simp only [h]
  change (if d.error.isSome = true then _ else _) = _
  rw [hd]
  rfl

/-- The block is there as a whole, and the assertion on its length holds. -/
def WholeBlock (format : AooFormatStorage) (result : Except DivisionByZero (Decoded S)) : Prop :=
  ∃ d, result = .ok d ∧
    (∀ i : Nat, (i : Int) < format.blockSize * format.numChannels →
      (d.outSamples i).isSome = true) ∧ d.frameSize = format.blockSize

/-- A buffer that was filled up to a product. -/
theorem filled_iff (r : SampleReaders S) {p : Int} (h : 0 ≤ p) (out : Nat → Option S)
    (hout : ∀ i : Nat, toInt32 p ≤ i → out i = none) :
    (∀ i : Nat, (i : Int) < p →
      (fillSamples (fun _ => r.silence) (toInt32 p).toNat 0 out i).isSome = true) ↔
      p < 2147483648 := by
  constructor
  · intro hall
    by_contra hlarge
    obtain ⟨hle, hlt⟩ := toInt32_le h
    have hlast := hall (p - 1).toNat (by omega)
    rw [fillSamples_apply, if_neg (by omega), hout _ (by omega)] at hlast
    cases hlast
  · intro hsmall i hi
    rw [fillSamples_apply, toInt32_of_range (by omega) hsmall, if_pos (by omega)]
    rfl

/-- **When the sink gets a whole block**: the payload is absent, or it has at least the samples of
a block and a bit depth that is one. -/
theorem decodeBlock_whole_iff (r : SampleReaders S) {header : AooFormat} {extension : List UInt8}
    (haccept : acceptFormat header extension = .ok (dec, fmt)) (payload : Option (List UInt8)) :
    WholeBlock fmt (decodeBlock r dec fmt payload) ↔
      fmt.blockSize * fmt.numChannels < 2147483648 ∧
        ∀ data, payload = some data → fmt.bitDepth ≠ kAooPcmBitDepthSize ∧
          fmt.blockSize * fmt.numChannels ≤ payloadSamples fmt data := by
  obtain ⟨hvalid, rfl⟩ := valid_of_acceptFormat haccept
  have hproduct : 0 ≤ fmt.blockSize * fmt.numChannels :=
    Int.mul_nonneg (Int.le_of_lt hvalid.blockSize) (Int.le_of_lt hvalid.numChannels.1)
  have hsilent := filled_iff r hproduct (fun _ => none) fun _ _ => rfl
  cases payload with
  | none =>
    rw [WholeBlock, decodeBlock_ok r fmt (decode_none r _ _ _) rfl]
    constructor
    · rintro ⟨d, hd, hall, -⟩
      cases hd
      dsimp only at hall
      exact ⟨hsilent.mp hall, nofun⟩
    · rintro ⟨hsmall, -⟩
      refine ⟨_, rfl, ?_, rfl⟩
      dsimp only
      exact hsilent.mpr hsmall
  | some data =>
    rcases bytesPerSample_cases (S := S) hvalid with ⟨hdepth, hsize⟩ | ⟨hdepth, hsize, hconv⟩
    · refine iff_of_false ?_ fun h => (h.2 data rfl).1 hdepth
      rintro ⟨d, hd, -⟩
      rw [hsize] at hd
      cases hd
    obtain ⟨convfn, hconvfn⟩ := hconv r
    have hdecode := decode_some r hvalid data (fun _ => none) fmt.blockSize hsize hconvfn
    have hpayload : (∀ d, some data = some d → fmt.bitDepth ≠ kAooPcmBitDepthSize ∧
        fmt.blockSize * fmt.numChannels ≤ payloadSamples fmt d) ↔
        fmt.blockSize * fmt.numChannels ≤ payloadSamples fmt data :=
      ⟨fun h => (h data rfl).2, fun h d hd => Option.some.inj hd ▸ ⟨hdepth, h⟩⟩
    obtain ⟨hle, hlt⟩ := toInt32_le hproduct
    rw [hpayload, WholeBlock]
    by_cases hmore : toInt32 (fmt.blockSize * fmt.numChannels) < payloadSamples fmt data
    · -- The decoder refuses the payload, and the block is silent.
      rw [if_pos hmore] at hdecode
      rw [decodeBlock_error r fmt hdecode rfl]
      constructor
      · rintro ⟨d, hd, hall, -⟩
        cases hd
        dsimp only at hall
        have hsmall := hsilent.mp hall
        rw [toInt32_of_range (by omega) hsmall] at hmore
        exact ⟨hsmall, Int.le_of_lt hmore⟩
      · rintro ⟨hsmall, -⟩
        refine ⟨_, rfl, ?_, rfl⟩
        dsimp only
        exact hsilent.mpr hsmall
    · have hfills := fills_some_iff r hvalid data fmt.blockSize
      rw [if_neg hmore] at hdecode
      rw [hdecode, complete_some, and_iff_right hdepth, or_iff_right hmore] at hfills
      rw [decodeBlock_ok r fmt hdecode rfl]
      constructor
      · rintro ⟨d, hd, hall, hframe⟩
        cases hd
        have hexact := hfills.mp ⟨_, rfl, fun _ => ⟨hall, hframe⟩⟩
        exact ⟨by omega, by omega⟩
      · rintro ⟨hsmall, hlength⟩
        rw [toInt32_of_range (by omega) hsmall] at hmore
        obtain ⟨d, hd, hfilled⟩ := hfills.mpr (by omega)
        cases hd
        exact ⟨_, rfl, hfilled rfl⟩

/-! ## Two formats -/

/-- The bytes of the samples, and a silent sample without bytes. -/
def rawSamples : SampleReaders (List UInt8) := ⟨id, id, id, id, id, []⟩

/-- One channel in blocks of 4 samples. -/
def monoHeader : AooFormat := ⟨kAooCodecPcm, 1, 48000, 4⟩

/-- A block of 16-bit samples that has all of them. -/
theorem decode_fills_int16 :
    Fills 1 4 (decode rawSamples ⟨1, 2⟩ (some [0, 1, 0, 2, 0, 3, 0, 4]) (fun _ => none) 4) := by
  have haccept : acceptFormat monoHeader [0, 0, 0, 1] =
      .ok (⟨1, 2⟩, { monoHeader with bitDepth := 1 }) := by
    decide +kernel
  exact (decode_fills_iff rawSamples haccept (some [0, 1, 0, 2, 0, 3, 0, 4]) 4).mpr
    ⟨by decide, .inr (by decide)⟩

/-- The bit depth 5 is accepted and divides by zero; and a block of one 16-bit sample is decoded
without an error, with one sample and another frame size. -/
theorem decode_traps_and_leaves_gaps :
    acceptFormat monoHeader [0, 0, 0, 5] = .ok (⟨1, 0⟩, { monoHeader with bitDepth := 5 }) ∧
    (∀ out, decode rawSamples ⟨1, 0⟩ (some [0, 0, 0, 0]) out 4 = .error .trap) ∧
    acceptFormat monoHeader [0, 0, 0, 1] = .ok (⟨1, 2⟩, { monoHeader with bitDepth := 1 }) ∧
    (∃ d, decode rawSamples ⟨1, 2⟩ (some [1, 2]) (fun _ => none) 4 = .ok d ∧ d.error = none ∧
      d.outSamples 0 = some [1, 2] ∧ d.outSamples 1 = none ∧ d.frameSize = 1) ∧
    ¬ Fills 1 4 (decode rawSamples ⟨1, 2⟩ (some [1, 2]) (fun _ => none) 4) := by
  refine ⟨by decide +kernel, fun _ => rfl, by decide +kernel, ⟨_, rfl, rfl, rfl, rfl, rfl⟩, ?_⟩
  rintro ⟨d, hd, hfilled⟩
  cases hd
  have hframe : (1 : Int) = 4 := (hfilled rfl).2
  cases hframe

end Aoo.Stream.Pcm
