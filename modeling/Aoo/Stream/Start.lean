import Aoo.Lib.Run
import Aoo.Stream.Playout

/-!
# The start of a stream

`source_desc::handle_start` of `sink.cpp`: a `/start` message names a stream, a format
with its id, and metadata that may hold a low-latency configuration. The message is
checked first (`check`), and then it is applied (`apply`), where the decoder may still
refuse the format. A message with the format id of the stream before skips the decoder.

`Whole` says that what is stored fits together. It holds along every run in which the
decoder takes each new format, and an id that comes again comes with its format; then a
message takes effect completely or not at all (`start_atomic`). The decoder that
refuses a format leaves half of the message behind (`start_half_applied`).

Codecs are parameters, but for the PCM codec of `pcm.cpp`.
-/

namespace Aoo.Stream

open Lib

/-! ## Formats and codecs -/

/-- `AooFormat` -/
structure AooFormat where
  codecName : String
  numChannels : Int
  sampleRate : Int
  blockSize : Int
  deriving DecidableEq, Repr

/-- `AooFormatStorage`. Behind the header stands a word of the codec: the bit depth of
PCM. -/
structure AooFormatStorage extends AooFormat where
  bitDepth : Int
  deriving DecidableEq, Repr

/-- `AooCodecInterface`: `deserialize` reads the word behind the header, and the setup of a
decoder checks a format and may change it. -/
structure Codec where
  name : String
  deserialize : List UInt8 → Except AooError Int
  setup : AooFormatStorage → Except AooError AooFormatStorage

def kAooCodecPcm : String := "pcm"

def kAooPcmInt24 : Int := 2
def kAooPcmFloat32 : Int := 3
def kAooPcmBitDepthSize : Int := 5

namespace Pcm

/-- `validate_format` of the PCM codec. -/
def validateFormat (f : AooFormatStorage) : Option AooFormatStorage :=
  if f.codecName ≠ kAooCodecPcm then none
  else some { f with
    blockSize := if f.blockSize ≤ 0 then 64 else f.blockSize
    sampleRate := if f.sampleRate ≤ 0 then 44100 else f.sampleRate
    numChannels := if f.numChannels ≤ 0 ∨ f.numChannels > 255 then 1 else f.numChannels
    bitDepth := if f.bitDepth < 0 ∨ f.bitDepth > kAooPcmBitDepthSize then kAooPcmFloat32
      else f.bitDepth }

/-- `deserialize` of the PCM codec: an `int32_t` in network byte order. -/
def deserialize (buf : List UInt8) : Except AooError Int :=
  if buf.length < 4 then .error .badArgument
  else .ok (signed 4294967296 (field 4 buf))

/-- `PcmCodec_setup` -/
def setup (f : AooFormatStorage) : Except AooError AooFormatStorage :=
  match validateFormat f with
  | none => .error .badArgument
  | some f => .ok f

def codec : Codec := ⟨kAooCodecPcm, deserialize, setup⟩

end Pcm

/-- `find_codec`. The PCM codec is registered first, and a name is taken only once. -/
def findCodec (others : List Codec) (name : String) : Option Codec :=
  (Pcm.codec :: others).find? fun c => c.name == name

theorem findCodec_pcm (others : List Codec) : findCodec others kAooCodecPcm = some Pcm.codec :=
  rfl

/-! ## Messages -/

def kAooDataBinary : Int := 0

/-- The arguments of a `/start` message that decide what becomes of it. -/
structure StartMessage where
  streamId : Int
  formatId : Int
  format : AooFormat
  extension : List UInt8
  metadata : Option AooData
  deriving DecidableEq, Repr

/-- The part of `source_desc` that `/start` messages negotiate; of the decoder there is the
name of its codec. `lowLatency` is `low_latency_configuration_` if `low_latency_enabled_`.
`message` is the last message that took effect, a record that no function reads. -/
structure Negotiation where
  streamId : Int := kAooIdInvalid
  formatId : Int := kAooIdInvalid
  format : Option AooFormatStorage := none
  decoder : Option String := none
  lowLatency : Option AooLowLatencyStreamConfiguration := none
  metadata : Option AooData := none
  message : Option StartMessage := none
  deriving DecidableEq, Repr

/-- How `handle_start` ends. Without format or decoder it does not: both are
dereferenced. -/
inductive StartOutcome
  | ok
  | error (e : AooError)
  | crash
  deriving DecidableEq, Repr

/-- The low-latency configuration in the metadata. -/
def readConfiguration : Option AooData →
    Except AooError (Option AooLowLatencyStreamConfiguration)
  | none => .ok none
  | some md =>
    if md.type = kAooDataBinary ∧ md.data.length > 0 then
      match AooLowLatencyStreamConfiguration.decode md.data with
      | some c => .ok (some c)
      | none =>
        if md.data.take 4 = AooLowLatencyStreamConfiguration.kConfigurationMagic then
          .error .badFormat
        else .ok none
    else .ok none

/-- The codec of a message, and the format. -/
def readFormat (others : List Codec) (m : StartMessage) :
    Except AooError (Codec × AooFormatStorage) :=
  match findCodec others m.format.codecName with
  | none => .error .notImplemented
  | some codec =>
    match codec.deserialize m.extension with
    | .error e => .error e
    | .ok bitDepth => .ok (codec, { m.format with bitDepth })

/-- The bit depth that a low-latency configuration stands for. -/
def expectedBitDepth (c : AooLowLatencyStreamConfiguration) : Int :=
  if c.pcmFormat = kAooLowLatencyPcmFloat32 then kAooPcmFloat32 else kAooPcmInt24

/-- The format is PCM and has the numbers of the configuration. The sample rates are
compared as `uint32_t`, but that of a configuration is small. -/
def AooFormatStorage.agrees (f : AooFormatStorage) (c : AooLowLatencyStreamConfiguration) : Bool :=
  f.codecName == kAooCodecPcm && f.numChannels == c.channelCount.toNat &&
    f.sampleRate == c.sampleRate.toNat &&
    f.blockSize == c.blockFrames.toNat && f.bitDepth == expectedBitDepth c

/-- What a message is about to change: the configuration, and the codec and format if the
id is new. -/
structure StartPlan where
  configuration : Option AooLowLatencyStreamConfiguration
  change : Option (Codec × AooFormatStorage)

namespace Negotiation

/-- `handle_start` up to the first assignment; there is no plan for a message that is
redundant. -/
def check (others : List Codec) (s : Negotiation) (m : StartMessage) :
    Except AooError (Option StartPlan) :=
  if m.streamId = s.streamId then .ok none
  else
    match readConfiguration m.metadata with
    | .error e => .error e
    | .ok configuration =>
      if m.formatId ≠ s.formatId ∨ configuration.isSome then
        match readFormat others m with
        | .error e => .error e
        | .ok (codec, format) =>
          if configuration.all (format.agrees ·) then
            .ok (some ⟨configuration,
              if m.formatId ≠ s.formatId then some (codec, format) else none⟩)
          else .error .badFormat
      else .ok (some ⟨none, none⟩)

/-- What `update` does to the low-latency configuration. -/
def update (s : Negotiation) (target : UInt32) : Negotiation :=
  if s.format.any fun f => decide (f.blockSize > 0 ∧ f.sampleRate > 0) then
    { s with lowLatency := s.lowLatency.map fun c =>
        if target > 0 then { c with targetLatencyFrames := target } else c }
  else s

/-- `handle_start` from the first assignment on. The setup of the decoder can fail for
reasons of its own. -/
def apply (s : Negotiation) (m : StartMessage) (plan : StartPlan) (target : UInt32)
    (fault : Option AooError) : Negotiation × StartOutcome :=
  let s := { s with
    formatId := m.formatId
    streamId := m.streamId
    lowLatency := plan.configuration }
  match plan.change with
  | some (codec, format) =>
    match fault, codec.setup format with
    | some e, _ => ({ s with decoder := none }, .error e)
    | none, .error e => ({ s with decoder := none }, .error e)
    | none, .ok format =>
      ({ s with
          decoder := some codec.name
          format := some format
          metadata := m.metadata
          message := some m }.update target, .ok)
  | none =>
    if s.format.isSome ∧ s.decoder.isSome then
      ({ s with metadata := m.metadata, message := some m }.update target, .ok)
    else (s, .crash)

/-- `source_desc::handle_start`, for a message that matches the invitation. -/
def handleStart (others : List Codec) (s : Negotiation) (m : StartMessage) (target : UInt32)
    (fault : Option AooError) : Negotiation × StartOutcome :=
  match s.check others m with
  | .error e => (s, .error e)
  | .ok none => (s, .ok)
  | .ok (some plan) => s.apply m plan target fault

/-- A message, a change of settings, or `process`, which moves the metadata into an
event. -/
inductive Action
  | start (m : StartMessage) (target : UInt32) (fault : Option AooError)
  | update (target : UInt32)
  | process

def step (others : List Codec) (s : Negotiation) : Action → Negotiation
  | .start m target fault => (s.handleStart others m target fault).1
  | .update target => s.update target
  | .process => { s with metadata := none }

/-- What an action returns. -/
def outcome (others : List Codec) (s : Negotiation) : Action → StartOutcome
  | .start m target fault => (s.handleStart others m target fault).2
  | _ => .ok

/-! ## What is stored fits together -/

/-- The format of a message once the decoder has validated it. -/
def resolve (others : List Codec) (m : StartMessage) : Option AooFormatStorage :=
  match readFormat others m with
  | .error _ => none
  | .ok (codec, format) =>
    match codec.setup format with
    | .error _ => none
    | .ok format => some format

/-- If the message passes the checks, then the decoder takes a new format; and a format id
that is not new comes with the format that is stored. -/
def Action.Coherent (others : List Codec) (s : Negotiation) : Action → Prop
  | .start m _ fault => ∀ plan, s.check others m = .ok (some plan) →
      match plan.change with
      | some (codec, format) => fault = none ∧ ∃ format', codec.setup format = .ok format'
      | none => s.format.isSome = true ∧ resolve others m = s.format
  | _ => True

/-- Decoder and format are there, the format is that of the last message, with its id,
and it agrees with the low-latency configuration. -/
structure Whole (others : List Codec) (s : Negotiation) : Prop where
  decoder : s.decoder.isSome = true
  identified : ∃ m f, s.message = some m ∧ s.format = some f ∧ m.streamId = s.streamId ∧
    m.formatId = s.formatId ∧ resolve others m = some f
  agrees : ∀ c f, s.lowLatency = some c → s.format = some f → f.agrees c = true

/-- The PCM codec leaves a format alone that agrees with a configuration. -/
theorem setup_of_agrees {f : AooFormatStorage} {c : AooLowLatencyStreamConfiguration}
    (hc : c.validate = true) (h : f.agrees c = true) : Pcm.setup f = .ok f := by
  obtain ⟨-, -, -, -, hblock, hchannels, hmax⟩ := c.header_fields_ok hc
  have hrate : 8000 ≤ c.sampleRate.toNat := by
    simp only [AooLowLatencyStreamConfiguration.validate, Bool.and_eq_true, decide_eq_true_eq] at hc
    exact hc.1.1.1.1.1.1.1.1.2
  simp only [AooFormatStorage.agrees, Bool.and_eq_true, beq_iff_eq] at h
  obtain ⟨⟨⟨⟨hname, hn⟩, hs⟩, hb⟩, hd⟩ := h
  have hchannels' : 0 < c.channelCount.toNat :=
    Nat.pos_of_ne_zero fun h0 => hchannels (UInt16.toNat_inj.mp h0)
  have hblock' : 0 < c.blockFrames.toNat :=
    Nat.pos_of_ne_zero fun h0 => hblock (UInt16.toNat_inj.mp h0)
  have hdepth : ¬ (f.bitDepth < 0 ∨ f.bitDepth > kAooPcmBitDepthSize) := by
    rw [hd, expectedBitDepth]
    split <;> decide
  unfold AOO_LOW_LATENCY_MAX_CHANNELS at hmax
  rw [Pcm.setup, Pcm.validateFormat, if_neg (not_not.mpr hname), if_neg (by omega),
    if_neg (by omega), if_neg (by omega), if_neg hdepth]

theorem resolve_of_setup {others : List Codec} {m : StartMessage} {codec : Codec}
    {f f' : AooFormatStorage} (hread : readFormat others m = .ok (codec, f))
    (hsetup : codec.setup f = .ok f') : resolve others m = some f' := by
  rw [resolve, hread]
  simp only [hsetup]

/-- A format that agrees with a configuration is one of the PCM codec, which takes it as
it is. -/
theorem resolve_of_agrees {others : List Codec} {m : StartMessage} {codec : Codec}
    {f : AooFormatStorage} {c : AooLowLatencyStreamConfiguration} (hc : c.validate = true)
    (hread : readFormat others m = .ok (codec, f)) (h : f.agrees c = true) :
    codec.setup f = .ok f := by
  have hname : f.codecName = kAooCodecPcm := by
    simp only [AooFormatStorage.agrees, Bool.and_eq_true, beq_iff_eq] at h
    exact h.1.1.1.1
  unfold readFormat at hread
  split at hread
  next => cases hread
  next codec' hfind =>
    split at hread
    next => cases hread
    next =>
      cases hread
      have hpcm : codec = Pcm.codec := by
        rw [show m.format.codecName = kAooCodecPcm from hname, findCodec_pcm] at hfind
        exact (Option.some.inj hfind).symm
      rw [hpcm]
      exact setup_of_agrees hc h

theorem validate_of_readConfiguration {md : Option AooData}
    {c : AooLowLatencyStreamConfiguration} (h : readConfiguration md = .ok (some c)) :
    c.validate = true := by
  unfold readConfiguration at h
  split at h
  next => cases h
  next =>
    split at h
    next =>
      split at h
      next hd =>
        cases h
        exact AooLowLatencyStreamConfiguration.validate_of_decode hd
      next => split at h <;> cases h
    next => cases h

/-- What a plan says about its message. -/
structure Planned (others : List Codec) (s : Negotiation) (m : StartMessage) (plan : StartPlan) :
    Prop where
  change : ∀ codec f, plan.change = some (codec, f) →
    m.formatId ≠ s.formatId ∧ readFormat others m = .ok (codec, f)
  same : plan.change = none → m.formatId = s.formatId
  configuration : ∀ c, plan.configuration = some c → c.validate = true ∧
    ∃ codec f, readFormat others m = .ok (codec, f) ∧ f.agrees c = true

theorem planned_of_check {others : List Codec} {s : Negotiation} {m : StartMessage}
    {plan : StartPlan} (h : s.check others m = .ok (some plan)) : Planned others s m plan := by
  unfold check at h
  split at h
  next => cases h
  next =>
    split at h
    next => cases h
    next configuration hconf =>
      split at h
      next =>
        split at h
        next => cases h
        next codec f hread =>
          split at h
          next hagrees =>
            cases h
            refine ⟨fun codec' f' hchange => ?_, fun hchange => ?_, fun c hc => ?_⟩
            · simp only at hchange
              split at hchange
              next hne =>
                cases hchange
                exact ⟨hne, hread⟩
              next => cases hchange
            · simp only at hchange
              split at hchange
              next => cases hchange
              next heq => exact not_not.mp heq
            · simp only at hc
              subst hc
              exact ⟨validate_of_readConfiguration hconf, codec, f, hread, hagrees⟩
          next => cases h
      next hnot =>
        cases h
        rw [not_or, not_not] at hnot
        exact ⟨nofun, fun _ => hnot.1, nofun⟩

/-- An unchanged state, or one that fits together. -/
def Settled (others : List Codec) (s : Negotiation) : Prop := s = {} ∨ s.Whole others

theorem whole_update {others : List Codec} {s : Negotiation} (h : s.Whole others)
    (target : UInt32) : (s.update target).Whole others := by
  unfold update
  split
  next =>
    refine ⟨h.decoder, h.identified, fun c f hc hf => ?_⟩
    obtain ⟨c', hc', rfl⟩ := Option.map_eq_some_iff.mp hc
    have hagrees := h.agrees c' f hc' hf
    split
    next => exact hagrees
    next => exact hagrees
  next => exact h

/-- A new format. -/
theorem whole_change {others : List Codec} {s : Negotiation} {m : StartMessage} {plan : StartPlan}
    (hplan : Planned others s m plan) {codec : Codec} {f f' : AooFormatStorage}
    (hchange : plan.change = some (codec, f)) (hsetup : codec.setup f = .ok f') :
    ({ s with
        formatId := m.formatId
        streamId := m.streamId
        lowLatency := plan.configuration
        decoder := some codec.name
        format := some f'
        metadata := m.metadata
        message := some m } : Negotiation).Whole others := by
  obtain ⟨-, hread⟩ := hplan.change codec f hchange
  refine ⟨rfl, ⟨m, f', rfl, rfl, rfl, rfl, resolve_of_setup hread hsetup⟩, fun c g hc hg => ?_⟩
  obtain ⟨hvalid, codec', f'', hread', hagrees⟩ := hplan.configuration c hc
  rw [hread] at hread'
  cases hread'
  -- PCM: the decoder has left the format as it was
  rw [resolve_of_agrees hvalid hread hagrees] at hsetup
  cases hsetup
  cases hg
  exact hagrees

/-- The format of the stream before. -/
theorem whole_same {others : List Codec} {s : Negotiation} {m : StartMessage} {plan : StartPlan}
    (hplan : Planned others s m plan) (hd : s.decoder.isSome = true) {f : AooFormatStorage}
    (hf : s.format = some f) (hresolve : resolve others m = some f) :
    ({ s with
        formatId := m.formatId
        streamId := m.streamId
        lowLatency := plan.configuration
        metadata := m.metadata
        message := some m } : Negotiation).Whole others := by
  refine ⟨hd, ⟨m, f, rfl, hf, rfl, rfl, hresolve⟩, fun c g hc hg => ?_⟩
  obtain ⟨hvalid, codec, f', hread, hagrees⟩ := hplan.configuration c hc
  have hsetup := resolve_of_setup hread (resolve_of_agrees hvalid hread hagrees)
  rw [hresolve] at hsetup
  cases hsetup
  simp only [hf, Option.some.injEq] at hg
  subst hg
  exact hagrees

/-- A message that is coherent takes effect completely or not at all. -/
theorem handleStart_cases {others : List Codec} {s : Negotiation} (h : s.Settled others)
    {m : StartMessage} {target : UInt32} {fault : Option AooError}
    (ha : (Action.start m target fault).Coherent others s) :
    (s.handleStart others m target fault).1 = s ∨
      ((s.handleStart others m target fault).2 = .ok ∧
        (s.handleStart others m target fault).1.Whole others) := by
  unfold handleStart
  split
  next => exact Or.inl rfl
  next => exact Or.inl rfl
  next plan hcheck =>
    have hplan := planned_of_check hcheck
    have hcoherent := ha plan hcheck
    right
    unfold apply
    simp only
    split at hcoherent
    next codec f hchange =>
      obtain ⟨rfl, f', hsetup⟩ := hcoherent
      simp only [hsetup]
      exact ⟨trivial, whole_update (whole_change hplan hchange hsetup) target⟩
    next =>
      obtain ⟨hsome, hresolve⟩ := hcoherent
      -- a state without format has no decoder either, but then there is nothing to resolve
      have hwhole : s.Whole others := h.resolve_left fun h0 => by
        rw [h0] at hsome
        cases hsome
      obtain ⟨f, hf⟩ := Option.isSome_iff_exists.mp hsome
      rw [hf] at hresolve
      simp only [hsome, hwhole.decoder, and_self, if_true]
      exact ⟨trivial, whole_update (whole_same hplan hwhole.decoder hf hresolve) target⟩

/-- **One action** keeps what is stored together. -/
theorem settled_step {others : List Codec} {s : Negotiation} (h : s.Settled others) {a : Action}
    (ha : a.Coherent others s) : (s.step others a).Settled others := by
  cases a with
  | start m target fault =>
    rw [step]
    rcases handleStart_cases h ha with hsame | ⟨-, hwhole⟩
    · rw [hsame]
      exact h
    · exact Or.inr hwhole
  | update target =>
    rcases h with rfl | h
    · exact Or.inl rfl
    · exact Or.inr (whole_update h target)
  | process =>
    rcases h with rfl | h
    · exact Or.inl rfl
    · exact Or.inr ⟨h.decoder, h.identified, h.agrees⟩

end Negotiation

/-- **A message takes effect completely or not at all.** In every run of coherent messages,
a message that ends with an error changes nothing, and in every state with a stream what
is stored fits together. -/
theorem start_atomic (others : List Codec) (as : List Negotiation.Action)
    (has : StepsAll (Negotiation.step others) (Negotiation.Action.Coherent others) {} as) :
    (∀ bs a, bs ++ [a] <+: as →
      let s := bs.foldl (Negotiation.step others) {}
      ∀ e, s.outcome others a = .error e → s.step others a = s) ∧
    ∀ bs, bs <+: as →
      let s := bs.foldl (Negotiation.step others) {}
      s.streamId ≠ kAooIdInvalid → s.Whole others := by
  have hrun := StepsAll.invariant (I := fun s : Negotiation => s.Settled others)
    (fun s a hs ha => Negotiation.settled_step hs ha) (Or.inl rfl) has
  refine ⟨fun bs a hbs e herror => ?_, fun bs hbs hid => ?_⟩
  · have hbefore := hrun bs ((List.prefix_append bs [a]).trans hbs)
    have ha := stepsAll_iff.mp has bs a hbs
    cases a with
    | start m target fault =>
      rcases Negotiation.handleStart_cases hbefore ha with hsame | ⟨hok, -⟩
      · exact hsame
      · rw [Negotiation.outcome, hok] at herror
        cases herror
    | update target => cases herror
    | process => cases herror
  · refine (hrun bs hbs).resolve_left fun h0 => hid ?_
    show (bs.foldl (Negotiation.step others) {}).streamId = _
    rw [h0]

/-- The PCM codec takes every format of its own, so that only the format id matters. -/
theorem Negotiation.coherent_pcm {others : List Codec} {s : Negotiation} {m : StartMessage}
    {target : UInt32} (hname : m.format.codecName = kAooCodecPcm)
    (hsame : m.formatId = s.formatId → s.format.isSome = true ∧ resolve others m = s.format) :
    (Action.start m target none).Coherent others s := by
  intro plan hcheck
  have hplan := planned_of_check hcheck
  split
  next codec f hchange =>
    obtain ⟨-, hread⟩ := hplan.change codec f hchange
    rw [readFormat, hname, findCodec_pcm] at hread
    simp only at hread
    split at hread
    next => cases hread
    next =>
      cases hread
      refine ⟨rfl, ?_⟩
      show ∃ f', Pcm.setup _ = .ok f'
      rw [Pcm.setup, Pcm.validateFormat, if_neg (not_not.mpr hname)]
      exact ⟨_, rfl⟩
  next hchange => exact hsame (hplan.same hchange)

/-- The metadata of a low-latency stream with one channel and blocks of 64 frames. -/
def lowLatencyMetadata : AooData :=
  ⟨kAooDataBinary, [0x41, 0x4f, 0x4c, 0x53, 0, 1, 1, 1, 0, 1, 0, 64, 4, 0, 0, 1, 0, 0, 0xbb, 0x80,
    0, 0, 0, 128, 0, 0, 0, 7] ++ List.replicate 64 0⟩

/-- Two streams with one format id: the first regular, the second low-latency. -/
theorem atomic_two_streams :
    let f : AooFormat := ⟨kAooCodecPcm, 1, 48000, 64⟩
    let as : List Negotiation.Action :=
      [.start ⟨1, 5, f, [0, 0, 0, 3], none⟩ 0 none, .process,
        .start ⟨2, 5, f, [0, 0, 0, 3], some lowLatencyMetadata⟩ 256 none]
    let s := as.foldl (Negotiation.step []) {}
    s.streamId = 2 ∧ s.lowLatency.isSome = true ∧ s.Whole [] := by
  intro f as s
  have hid : s.streamId = 2 := by decide +kernel
  refine ⟨hid, by decide +kernel, (start_atomic [] as ?_).2 as (List.prefix_refl _) ?_⟩
  · refine ⟨Negotiation.coherent_pcm rfl fun h => absurd h (by decide), trivial,
      Negotiation.coherent_pcm rfl fun _ => ⟨by decide +kernel, by decide +kernel⟩, trivial⟩
  · show s.streamId ≠ kAooIdInvalid
    rw [hid]
    decide

/-- A decoder that refuses the format: `handle_start` returns the error, but the stream id
is the new one and there is no decoder. And a format id that comes again with another
format: the low-latency configuration has one channel, and the stored format two. -/
theorem start_half_applied :
    (let refusing : Codec := ⟨"x", fun _ => .ok 0, fun _ => .error (.other 17)⟩
      let a : Negotiation.Action := .start ⟨1, 5, ⟨"x", 1, 48000, 64⟩, [], none⟩ 0 none
      let s : Negotiation := {}
      s.outcome [refusing] a = .error (.other 17) ∧ (s.step [refusing] a).streamId = 1 ∧
        (s.step [refusing] a).decoder = none ∧ s.step [refusing] a ≠ s) ∧
    (let as : List Negotiation.Action :=
        [.start ⟨1, 5, ⟨kAooCodecPcm, 2, 48000, 64⟩, [0, 0, 0, 3], none⟩ 0 none,
          .start ⟨2, 5, ⟨kAooCodecPcm, 1, 48000, 64⟩, [0, 0, 0, 3], some lowLatencyMetadata⟩ 0 none]
      let s := as.foldl (Negotiation.step []) {}
      s.streamId = 2 ∧ s.lowLatency.map (·.channelCount) = some 1 ∧
        s.format.map (·.numChannels) = some 2 ∧ ¬ s.Whole []) := by
  refine ⟨by decide +kernel, by decide +kernel, by decide +kernel, by decide +kernel, ?_⟩
  intro hwhole
  generalize hs : List.foldl (Negotiation.step []) {} _ = s at hwhole
  have hdisagree : (s.lowLatency.any fun c => s.format.any fun f => !f.agrees c) = true := by
    rw [← hs]
    decide +kernel
  obtain ⟨c, hc⟩ : ∃ c, s.lowLatency = some c :=
    Option.isSome_iff_exists.mp (by rw [← hs]; decide +kernel)
  obtain ⟨f, hf⟩ : ∃ f, s.format = some f :=
    Option.isSome_iff_exists.mp (by rw [← hs]; decide +kernel)
  rw [hc, hf, Option.any_some, Option.any_some, hwhole.agrees c f hc hf] at hdisagree
  cases hdisagree

/-! ## The receiving side -/

namespace Negotiation

/-- What the model of the receiving side knows of the negotiation. -/
structure Describes (s : Negotiation) (d : SourceDesc) : Prop where
  streamId : d.streamId = s.streamId
  decoder : d.decoder = s.decoder.bind fun _ => s.format.map (·.blockSize.toNat)
  lowLatency : d.lowLatency = s.lowLatency

/-- The block size of a new format and whether the decoder takes it. -/
def newFormat (fault : Option AooError) : Option (Codec × AooFormatStorage) → Option Nat × Bool
  | none => (none, true)
  | some (codec, format) =>
    match fault, codec.setup format with
    | none, .ok format => (some format.blockSize.toNat, true)
    | _, _ => (some 0, false)

/-- The two models of `update`. -/
theorem describes_restart {s : Negotiation} {d : SourceDesc} (h : s.Describes d)
    (hd : d.decoder.isSome = true)
    (hsizes : ∀ f, s.format = some f → 0 < f.blockSize ∧ 0 < f.sampleRate)
    (a : SourceDesc.StartArgs) : (s.update a.update.target).Describes (d.restart a) := by
  obtain ⟨hid, hdecoder, -, hlow⟩ := d.restart_frame a
  obtain ⟨n, hn⟩ := Option.isSome_iff_exists.mp hd
  have hbind := h.decoder
  rw [hn] at hbind
  obtain ⟨name, hname, hmap⟩ := Option.bind_eq_some_iff.mp hbind.symm
  obtain ⟨f, hf, -⟩ := Option.map_eq_some_iff.mp hmap
  have hany : (s.format.any fun f => decide (f.blockSize > 0 ∧ f.sampleRate > 0)) = true := by
    rw [hf, Option.any_some]
    exact decide_eq_true (hsizes f hf)
  rw [update, if_pos hany]
  refine ⟨hid.trans h.streamId, hdecoder.trans h.decoder, ?_⟩
  rw [hlow, SourceDesc.update, hn]
  simp only
  rw [h.lowLatency]

/-- A message that passes the checks is a `handle_start` of the receiving side. -/
theorem describes_apply {s : Negotiation} {d : SourceDesc} (h : s.Describes d) {m : StartMessage}
    {plan : StartPlan} {fault : Option AooError} {a : SourceDesc.StartArgs}
    (hid : a.streamId = m.streamId) (hnew : a.streamId ≠ d.streamId)
    (hconf : a.configuration = plan.configuration)
    (hformat : (a.format, a.decoderOk) = newFormat fault plan.change)
    (hsizes : ∀ f, (s.apply m plan a.update.target fault).1.format = some f →
      0 < f.blockSize ∧ 0 < f.sampleRate) :
    (s.apply m plan a.update.target fault).1.Describes (d.handleStart a) := by
  have hkeep : ∀ (t : Negotiation) (target : UInt32), (t.update target).format = t.format := by
    intro t target
    unfold update
    split <;> rfl
  rw [SourceDesc.handleStart, if_neg hnew]
  unfold apply at hsizes ⊢
  simp only at hsizes ⊢
  cases hchange : plan.change with
  | none =>
    rw [hchange] at hformat
    simp only [newFormat, Prod.mk.injEq] at hformat
    simp only [hchange, hformat.1] at hsizes ⊢
    -- without a new format the stream goes on with the old one, if there is one
    by_cases hboth : s.format.isSome = true ∧ s.decoder.isSome = true
    · have hd : d.decoder.isSome = true := by
        obtain ⟨f, hf⟩ := Option.isSome_iff_exists.mp hboth.1
        obtain ⟨name, hname⟩ := Option.isSome_iff_exists.mp hboth.2
        rw [h.decoder, hname, hf]
        rfl
      rw [if_pos hboth] at hsizes ⊢
      rw [hkeep] at hsizes
      rw [if_pos hd]
      refine describes_restart ?_ ?_ hsizes a
      · exact ⟨hid, h.decoder, hconf⟩
      · exact hd
    · have hd : ¬ d.decoder.isSome = true := by
        rw [h.decoder]
        intro hsome
        obtain ⟨n, hn⟩ := Option.isSome_iff_exists.mp hsome
        obtain ⟨name, hname, hmap⟩ := Option.bind_eq_some_iff.mp hn
        obtain ⟨f, hf, -⟩ := Option.map_eq_some_iff.mp hmap
        exact hboth ⟨by rw [hf]; rfl, by rw [hname]; rfl⟩
      rw [if_neg hboth, if_neg hd]
      exact ⟨hid, h.decoder, hconf⟩
  | some change =>
    obtain ⟨codec, format⟩ := change
    rw [hchange] at hformat
    simp only [hchange] at hsizes ⊢
    cases fault with
    | some e =>
      simp only [newFormat, Prod.mk.injEq] at hformat
      simp only [hformat.1, hformat.2]
      -- the setup of the decoder has failed, and the stream is without one
      exact ⟨hid, rfl, hconf⟩
    | none =>
      cases hsetup : codec.setup format with
      | error e =>
        simp only [newFormat, hsetup, Prod.mk.injEq] at hformat
        simp only [hformat.1, hformat.2]
        exact ⟨hid, rfl, hconf⟩
      | ok format' =>
        simp only [newFormat, hsetup, Prod.mk.injEq] at hformat
        simp only [hsetup] at hsizes ⊢
        rw [hkeep] at hsizes
        simp only [hformat.1, hformat.2, if_true]
        exact describes_restart ⟨hid, rfl, hconf⟩ rfl hsizes a

end Negotiation

end Aoo.Stream
