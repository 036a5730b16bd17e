import Aoo.Stream.Control

/-!
# Guards of a source

The stages of `send()` ask for the encoder before they use it, and where there is an encoder, there is
a format (`Inv`). `send_xruns` does not ask: as soon as there are xruns, it takes the block size
of the format, which may not be there yet, because a stream runs without one. `add_xrun` divides
by the block size of `setup()`, which is zero before, and may be zero after, for it is kept in 16
bits; the sample rate is cut to an integer.

**Main result** (`crashed_iff`): in every run, no missing format or encoder is used and
nothing is divided by a zero block size or sample rate, exactly if the steps that do not ask find
what they need (`Allowed`).
-/

namespace Aoo.Stream.Control

open Lib

/-- What the steps find that do not ask for it. -/
def Allowed (s : Source) : Action → Prop
  | .setup nchannels samplerate blocksize flags =>
    nchannels ≥ 0 ∧ samplerate > 0 ∧ blocksize > 0 →
      (nchannels ≠ s.nchannels ∨ samplerate ≠ s.samplerate ∨ blocksize ≠ s.blocksize ∨
        flags ≠ s.flags) → s.encoder = true → 0 < trunc samplerate → toInt16 blocksize ≠ 0
  | .setFormat (.accepted _) => 0 < s.samplerate → s.blocksize ≠ 0
  | .process i =>
    (s.state = .start ∧ i.locked = true → s.samplerate ≠ 0) ∧
      (s.state = .run ∨ s.state = .start ∧ i.locked = true → i.shared = false → s.blocksize ≠ 0)
  | .reportXRun _ => s.blocksize ≠ 0
  | .send _ => s.isSilent = false → 1 / 2 < s.xrunblocks → s.format ≠ none ∧ s.blocksize ≠ 0
  | _ => True

/-- What the other guards rely on. -/
structure Inv (s : Source) : Prop where
  format : s.encoder = true → s.format ≠ none
  blocksize : s.encoder = true → 0 < s.samplerate → s.blocksize ≠ 0
  stream : s.hasStream = true → s.samplerate ≠ 0
  running : s.state = .run → s.samplerate ≠ 0
  rate : 0 ≤ s.samplerate
  ratio : 0 < s.ratio

/-- A source has a stream when it has a format and an id for the stream. -/
theorem hasStream_iff {s : Source} :
    s.hasStream = true ↔ s.encoder = true ∧ s.sequence ≠ kAooIdInvalid := by
  rw [Source.hasStream, Bool.and_eq_true, decide_eq_true_eq]

/-- A new source has neither format nor stream. -/
theorem inv_new (buffersize resendBuffersize ttInterval : ℚ) :
    Inv (Source.new buffersize resendBuffersize ttInterval) :=
  ⟨nofun, nofun, nofun, nofun, Int.le_refl 0, one_pos⟩

/-- A step ends well exactly if `C` holds, and then it keeps the invariant. -/
structure Keeps (t : Source) (C : Prop) : Prop where
  crashed_iff : t.crashed = false ↔ C
  inv : t.crashed = false → Inv t

/-- A step that ends well where it should. -/
theorem Keeps.of_inv {t : Source} {C : Prop} (hC : C) (hcrash : t.crashed = false) (h : Inv t) :
    Keeps t C := ⟨iff_of_true hcrash hC, fun _ => h⟩

theorem Keeps.of_and {t : Source} {C : Prop} (hC : C) (h : Inv t ∧ t.crashed = false) :
    Keeps t C := .of_inv hC h.2 h.1

/-- A step that divides by zero where it is expected to. -/
theorem Keeps.of_crash {t : Source} {C : Prop} (hC : ¬ C) (hcrash : t.crashed = true) :
    Keeps t C :=
  ⟨iff_of_false (by rw [hcrash]; nofun) hC, fun h => by rw [hcrash] at h; cases h⟩

/-- What no guard looks at may change. -/
theorem Inv.congr {s t : Source} (h : Inv s) (hencoder : t.encoder = s.encoder)
    (hformat : t.format = s.format) (hsamplerate : t.samplerate = s.samplerate)
    (hblocksize : t.blocksize = s.blocksize) (hsequence : t.sequence = s.sequence)
    (hstate : t.state = .run → s.state = .run) (hratio : t.ratio = s.ratio) : Inv t := by
  refine ⟨?_, ?_, ?_, ?_, ?_, ?_⟩
  · rw [hencoder, hformat]
    exact h.format
  · rw [hencoder, hsamplerate, hblocksize]
    exact h.blocksize
  · rw [Source.hasStream, hencoder, hsequence, hsamplerate]
    exact h.stream
  · rw [hsamplerate]
    exact fun hrun => h.running (hstate hrun)
  · rw [hsamplerate]
    exact h.rate
  · rw [hratio]
    exact h.ratio

/-! ## Settings -/

/-- The queues and the resampler are set up; this fails without a block size. -/
structure Reconfigured (s t : Source) : Prop where
  encoder : t.encoder = s.encoder
  format : t.format = s.format
  samplerate : t.samplerate = s.samplerate
  blocksize : t.blocksize = s.blocksize
  state : t.state = s.state
  sequence : t.sequence = kAooIdInvalid
  ratio : 0 < t.ratio
  crashed : t.crashed = (s.crashed || decide (0 < s.samplerate ∧ s.blocksize = 0))

/-- With a format, and a ratio above zero, the queues can be set up. -/
theorem reconfigured {s : Source} (hformat : s.encoder = true → s.format ≠ none)
    (hratio : 0 < s.ratio) (he : s.encoder = true) : Reconfigured s s.reconfigure := by
  obtain ⟨f, hf⟩ := Option.ne_none_iff_exists'.mp (hformat he)
  have hsampleRate : (0 : ℚ) < f.sampleRate := by exact_mod_cast f.sampleRate_pos
  by_cases hrate : 0 < s.samplerate
  · have hpos : (0 : ℚ) < s.samplerate := by exact_mod_cast hrate
    have hquot : 0 < double (f.sampleRate / s.samplerate) :=
      double_pos (div_pos hsampleRate hpos)
    by_cases hblocksize : s.blocksize = 0
    · simp only [Source.reconfigure, Source.updateAudioQueue, he, gt_iff_lt, hrate, and_self,
        if_true, hf, hblocksize, Source.crash, Source.updateResampler, Source.updateHistoryBuffer]
      exact ⟨he.symm, hf.symm, rfl, hblocksize.symm, rfl, rfl, hquot, by simp [hrate, hblocksize]⟩
    · simp only [Source.reconfigure, Source.updateAudioQueue, he, gt_iff_lt, hrate, and_self,
        if_true, hf, hblocksize, if_false, Source.updateResampler, Source.updateHistoryBuffer]
      exact ⟨he.symm, hf.symm, rfl, rfl, rfl, rfl, hquot, by simp [hblocksize]⟩
  · simp only [Source.reconfigure, Source.updateAudioQueue, he, gt_iff_lt, hrate, and_false,
      if_false, hf, if_true, Source.updateResampler, Source.updateHistoryBuffer]
    exact ⟨he.symm, hf.symm, rfl, rfl, rfl, rfl, hratio, by simp [hrate]⟩

/-- A restart only changes the state, and never to `run`. -/
theorem restartStream_eq (s : Source) : ∃ state, (state = .run → False) ∧
    s.restartStream = { s with state := state } := by
  by_cases hrun : s.state = .run
  · exact ⟨.start, nofun, by rw [Source.restartStream, if_pos hrun]⟩
  · exact ⟨s.state, hrun, by rw [Source.restartStream, if_neg hrun]⟩

/-- After a new format there is no stream until `process` makes one. -/
theorem hasStream_of_invalid {s : Source} (h : s.sequence = kAooIdInvalid) :
    s.hasStream = false := by
  rw [Source.hasStream, h]
  exact Bool.and_false _

/-- After new settings the stream starts again, if there is an encoder. -/
theorem reconfigure_keeps {s : Source} (hformat : s.encoder = true → s.format ≠ none)
    (hratio : 0 < s.ratio) (hrate : 0 ≤ s.samplerate) (hcrash : s.crashed = false)
    (he : s.encoder = true) :
    Keeps s.reconfigure.restartStream (0 < s.samplerate → s.blocksize ≠ 0) := by
  have hr := reconfigured hformat hratio he
  obtain ⟨state, hstate, heq⟩ := restartStream_eq s.reconfigure
  rw [heq]
  have hcrashed : s.reconfigure.crashed = false ↔ (0 < s.samplerate → s.blocksize ≠ 0) := by
    rw [hr.crashed, hcrash, Bool.false_or, decide_eq_false_iff_not, not_and]
  refine ⟨hcrashed, fun hok => ?_⟩
  have hstream : s.reconfigure.hasStream = false := hasStream_of_invalid hr.sequence
  refine ⟨?_, ?_, fun h => ?_, fun h => (hstate h).elim, ?_, hr.ratio⟩
  · show s.reconfigure.encoder = true → s.reconfigure.format ≠ none
    rw [hr.encoder, hr.format]
    exact hformat
  · show s.reconfigure.encoder = true → 0 < s.reconfigure.samplerate →
      s.reconfigure.blocksize ≠ 0
    rw [hr.samplerate, hr.blocksize]
    exact fun _ => hcrashed.mp hok
  · exact absurd (hstream.symm.trans h) (by decide)
  · show 0 ≤ s.reconfigure.samplerate
    rw [hr.samplerate]
    exact hrate

/-- The conversion keeps the sign. -/
theorem trunc_nonneg {x : ℚ} (h : 0 ≤ x) : 0 ≤ trunc x := by
  rw [trunc, if_pos h]
  exact Int.floor_nonneg.mpr h

/-- `setup` divides by the block size that it keeps in 16 bits. -/
theorem setup_keeps {s : Source} (h : Inv s) (hcrash : s.crashed = false) (nchannels : Int)
    (samplerate : ℚ) (blocksize : Int) (flags : Nat) :
    Keeps (s.setup nchannels samplerate blocksize flags)
      (Allowed s (.setup nchannels samplerate blocksize flags)) := by
  rw [Source.setup, Allowed]
  by_cases hvalid : nchannels ≥ 0 ∧ samplerate > 0 ∧ blocksize > 0
  · rw [if_pos hvalid, forall_prop_of_true hvalid]
    by_cases hchanged : nchannels ≠ s.nchannels ∨ samplerate ≠ s.samplerate ∨
        blocksize ≠ s.blocksize ∨ flags ≠ s.flags
    · rw [if_pos hchanged, forall_prop_of_true hchanged]
      have hrate := trunc_nonneg hvalid.2.1.le
      dsimp only
      by_cases he : s.encoder = true
      · rw [if_pos he, forall_prop_of_true he]
        have hkeeps := @reconfigure_keeps { s with
          flags
          nchannels := toInt16 nchannels
          blocksize := toInt16 blocksize
          samplerate := trunc samplerate } h.format h.ratio hrate hcrash he
        exact ⟨hkeeps.crashed_iff, fun hok =>
          (hkeeps.inv hok).congr rfl rfl rfl rfl rfl id rfl⟩
      · rw [if_neg he]
        obtain ⟨state, hstate, heq⟩ := restartStream_eq { s with
          flags
          nchannels := toInt16 nchannels
          blocksize := toInt16 blocksize
          samplerate := trunc samplerate }
        rw [heq]
        refine .of_inv (fun hc => absurd hc he) hcrash ?_
        refine ⟨h.format, fun hc => absurd hc he, fun hc => ?_, fun hrun => (hstate hrun).elim, hrate,
          h.ratio⟩
        exact absurd (hasStream_iff.mp hc).1 he
    · rw [if_neg hchanged]
      refine .of_inv (fun hc => absurd hc hchanged) hcrash ?_
      exact h.congr rfl rfl rfl rfl rfl id rfl
  · rw [if_neg hvalid]
    exact .of_inv (fun hv => absurd hv hvalid) hcrash h

/-- A new format divides by the block size of `setup`, which may not have been called. -/
theorem setFormat_keeps {s : Source} (h : Inv s) (hcrash : s.crashed = false)
    (result : Source.FormatResult) :
    Keeps (s.setFormat result) (Allowed s (.setFormat result)) := by
  cases result with
  | unsupported => exact .of_inv trivial hcrash h
  | refused =>
    refine .of_inv trivial hcrash ⟨nofun, nofun, fun hc => ?_, h.running, h.rate, h.ratio⟩
    exact absurd (hasStream_iff.mp hc).1 Bool.false_ne_true
  | accepted f =>
    exact @reconfigure_keeps { s with encoder := true, format := some f } (fun _ => nofun) h.ratio
      h.rate hcrash rfl

/-! ## The audio thread -/

/-- Xruns are counted in blocks, so there must be a block size. -/
theorem addXrun_keeps {s : Source} (h : Inv s) (hcrash : s.crashed = false) (nsamples : Int) :
    Keeps (s.addXrun nsamples) (s.blocksize ≠ 0) := by
  rw [Source.addXrun]
  by_cases hblocksize : s.blocksize = 0
  · rw [if_pos hblocksize]
    exact .of_crash (fun hne => hne hblocksize) rfl
  · rw [if_neg hblocksize]
    exact .of_inv hblocksize hcrash (h.congr rfl rfl rfl rfl rfl id rfl)

/-- The user's xruns are counted the same way. -/
theorem handleXrun_keeps {s : Source} (h : Inv s) (hcrash : s.crashed = false) (nsamples : Int) :
    Keeps (s.handleXrun nsamples) (s.blocksize ≠ 0) := by
  have hkeeps := addXrun_keeps h hcrash nsamples
  exact ⟨hkeeps.crashed_iff, fun hok => (hkeeps.inv hok).congr rfl rfl rfl rfl rfl id rfl⟩

/-- With a sample rate the timer is simply set up again. -/
theorem updateTimer_eq {s : Source} (h : s.samplerate ≠ 0) :
    s.updateTimer = { s with needResetTimer := false } := by
  rw [Source.updateTimer]
  by_cases hreset : s.needResetTimer = true
  · rw [if_pos hreset, if_neg h]
  · rw [if_neg hreset]
    cases s
    simp only [Bool.not_eq_true] at hreset
    rw [hreset]

/-- A running stream needs the block size only if it does not get the lock. -/
theorem processAudio_keeps {s : Source} (h : Inv s) (hcrash : s.crashed = false)
    (hrate : s.samplerate ≠ 0) (i : Source.ProcessInput) :
    Keeps (s.processAudio i) (i.shared = false → s.blocksize ≠ 0) := by
  have ht : Inv { s with needResetTimer := false } := h.congr rfl rfl rfl rfl rfl id rfl
  rw [Source.processAudio, updateTimer_eq hrate]
  dsimp only
  rw [if_neg (by rw [hcrash]; nofun)]
  cases hshared : i.shared with
  | false =>
    have hkeeps := addXrun_keeps ht hcrash i.nsamples
    simpa using hkeeps
  | true =>
    simp only [Bool.not_true, Bool.false_eq_true, if_false]
    by_cases he : s.encoder = true
    · obtain ⟨f, hf⟩ := Option.ne_none_iff_exists'.mp (h.format he)
      simp only [he, Bool.not_true, Bool.false_eq_true, if_false, hf, hrate, and_false]
      have hblocksize := h.blocksize he (lt_of_le_of_ne h.rate hrate.symm)
      have hqueue : Inv { s with
          needResetTimer := false
          audioQueue := min s.audioCapacity (s.audioQueue + i.blocks) } :=
        h.congr rfl rfl rfl rfl rfl id rfl
      split
      · have hkeeps := addXrun_keeps hqueue hcrash i.nsamples
        have hok := hkeeps.crashed_iff.mpr hblocksize
        simp only [he, hf] at hkeeps hok
        exact .of_inv nofun hok (hkeeps.inv hok)
      · simp only [he, hf] at hqueue
        exact .of_inv nofun hcrash hqueue
    · rw [if_pos (by simpa using he)]
      exact .of_inv nofun hcrash ht

/-- A new stream has no time yet, but a timer that is set up with the sample rate. -/
theorem startAudio_keeps {s : Source} (h : Inv s) (hcrash : s.crashed = false)
    (i : Source.ProcessInput) :
    Keeps (({ s with state := .run } : Source).makeNewStream i.ids |>.processAudio i)
      (s.samplerate ≠ 0 ∧ (i.shared = false → s.blocksize ≠ 0)) := by
  by_cases hrate : s.samplerate = 0
  · refine .of_crash (fun hc => hc.1 hrate) ?_
    have htimer : (({ s with state := .run } : Source).makeNewStream i.ids).updateTimer.crashed =
        true := by
      rw [Source.updateTimer, Source.makeNewStream, if_pos rfl, if_pos hrate]
      rfl
    rw [Source.processAudio, if_pos htimer]
    exact htimer
  · have hnew : Inv (({ s with state := .run } : Source).makeNewStream i.ids) :=
      ⟨h.format, h.blocksize, fun _ => hrate, fun _ => hrate, h.rate, h.ratio⟩
    have hkeeps := processAudio_keeps hnew hcrash hrate i
    exact ⟨hkeeps.crashed_iff.trans (and_iff_right hrate).symm, hkeeps.inv⟩

/-- `process` needs a sample rate when it starts, and a block size where it makes frames of the
samples. -/
theorem process_keeps {s : Source} (h : Inv s) (hcrash : s.crashed = false)
    (i : Source.ProcessInput) : Keeps (s.process i) (Allowed s (.process i)) := by
  rw [Source.process, Allowed]
  split
  next hstate =>
    refine .of_inv ⟨fun hc => ?_, fun hc => ?_⟩ hcrash h
    · rw [hstate] at hc
      cases hc.1
    · rw [hstate] at hc
      rcases hc with hc | ⟨hc, -⟩ <;> cases hc
  next offset hstate =>
    refine .of_inv ⟨fun hc => ?_, fun hc => ?_⟩ hcrash (h.congr rfl rfl rfl rfl rfl nofun rfl)
    · rw [hstate] at hc
      cases hc.1
    · rw [hstate] at hc
      rcases hc with hc | ⟨hc, -⟩ <;> cases hc
  next hstate =>
    rw [hstate]
    by_cases hlocked : i.locked = true
    · rw [if_pos hlocked]
      have hkeeps := startAudio_keeps h hcrash i
      refine ⟨hkeeps.crashed_iff.trans ?_, hkeeps.inv⟩
      simp [hlocked]
    · rw [if_neg hlocked]
      exact .of_inv (by simp [hlocked]) hcrash h
  next hstate =>
    have hkeeps := processAudio_keeps h hcrash (h.running hstate) i
    refine ⟨hkeeps.crashed_iff.trans ?_, hkeeps.inv⟩
    simp [hstate]

/-! ## Sinks and requests -/

/-- Only sinks, requests, flags and the record have changed. -/
structure SameStream (s t : Source) : Prop where
  encoder : t.encoder = s.encoder
  format : t.format = s.format
  samplerate : t.samplerate = s.samplerate
  blocksize : t.blocksize = s.blocksize
  sequence : t.sequence = s.sequence
  state : t.state = s.state
  ratio : t.ratio = s.ratio
  xrunblocks : t.xrunblocks = s.xrunblocks
  crashed : t.crashed = s.crashed

/-- Nothing has changed. -/
theorem SameStream.refl (s : Source) : SameStream s s :=
  ⟨rfl, rfl, rfl, rfl, rfl, rfl, rfl, rfl, rfl⟩

/-- The invariant speaks of the stream only. -/
theorem SameStream.inv {s t : Source} (h : SameStream s t) (hi : Inv s) : Inv t :=
  hi.congr h.encoder h.format h.samplerate h.blocksize h.sequence (fun hrun => h.state ▸ hrun)
    h.ratio

/-- So no guard can fail in a step that leaves the stream alone. -/
theorem SameStream.keeps {s t : Source} (h : SameStream s t) (hi : Inv s)
    (hcrash : s.crashed = false) : Keeps t True :=
  .of_inv trivial (h.crashed.trans hcrash) (h.inv hi)

/-- Two such steps are one. -/
theorem SameStream.trans {s t u : Source} (h : SameStream s t) (g : SameStream t u) :
    SameStream s u :=
  ⟨g.encoder.trans h.encoder, g.format.trans h.format, g.samplerate.trans h.samplerate,
    g.blocksize.trans h.blocksize, g.sequence.trans h.sequence, g.state.trans h.state,
    g.ratio.trans h.ratio, g.xrunblocks.trans h.xrunblocks, g.crashed.trans h.crashed⟩

theorem sameStream_setSink (s : Source) (ep : Nat) (f : Sink → Sink) :
    SameStream s (s.setSink ep f) :=
  ⟨rfl, rfl, rfl, rfl, rfl, rfl, rfl, rfl, rfl⟩

theorem sameStream_note (s : Source) (n : Note) : SameStream s (s.note n) :=
  ⟨rfl, rfl, rfl, rfl, rfl, rfl, rfl, rfl, rfl⟩

theorem sameStream_pushRequest (s : Source) (r : Request) : SameStream s (s.pushRequest r) :=
  ⟨rfl, rfl, rfl, rfl, rfl, rfl, rfl, rfl, rfl⟩

theorem sameStream_notifyStart (s : Source) (ep : Nat) : SameStream s (s.notifyStart ep) :=
  ⟨rfl, rfl, rfl, rfl, rfl, rfl, rfl, rfl, rfl⟩

/-- Both branches leave the stream alone. -/
theorem SameStream.ite {s t u : Source} {p : Prop} [Decidable p] (ht : SameStream s t)
    (hu : SameStream s u) : SameStream s (if p then t else u) := by
  split
  next => exact ht
  next => exact hu

/-- A sink can be switched on at any time. -/
theorem sameStream_enable (s : Source) (ep : Nat) (id : Int) :
    SameStream s (s.enable ep id) := by
  have h := (sameStream_setSink s ep fun x => { x with streamId := id }).trans
    (sameStream_note _ (.activated ep))
  exact .ite (h.trans (sameStream_notifyStart _ ep)) h

/-- A sink can be switched off at any time. -/
theorem sameStream_disable (s : Source) (ep : Nat) (stream : Int) :
    SameStream s (s.disable ep stream) := by
  have h := (sameStream_setSink s ep fun x => { x with streamId := kAooIdInvalid }).trans
    (sameStream_note _ (.deactivated ep))
  exact .ite (h.trans (sameStream_pushRequest _ _)) h

/-- A new sink changes nothing for the stream. -/
theorem sameStream_addSink (s : Source) (ep : Nat) (active : Bool) (id : Nat) :
    SameStream s (s.addSink ep active id) := by
  have hadd (sinks : List Sink) : SameStream s { s with sinks } :=
    ⟨rfl, rfl, rfl, rfl, rfl, rfl, rfl, rfl, rfl⟩
  have hnote := (hadd (⟨ep, if active then id else kAooIdInvalid, false, []⟩ :: s.sinks)).trans
    (sameStream_note _ (.activated ep))
  exact .ite (.refl s)
    (.ite (.ite (hnote.trans (sameStream_notifyStart _ ep)) hnote) (hadd _))

/-- Sinks are activated without the stream. -/
theorem sameStream_activate (s : Source) (ep : Nat) (b : Bool) (id : Nat) :
    SameStream s (s.activate ep b id) := by
  rw [Source.activate]
  split
  next => exact .refl s
  next => exact .ite (sameStream_enable s ep id) (sameStream_disable s ep _)

/-- The user's answer to an invitation concerns one sink. -/
theorem sameStream_handleInvite (s : Source) (ep : Nat) (token : Int) (accept : Bool) :
    SameStream s (s.handleInvite ep token accept) := by
  rw [Source.handleInvite]
  split
  next => exact .refl s
  next => exact .ite (sameStream_enable s ep token) (sameStream_pushRequest s _)

/-- So does the answer to an uninvitation. -/
theorem sameStream_handleUninvite (s : Source) (ep : Nat) (token : Int) (accept : Bool) :
    SameStream s (s.handleUninvite ep token accept) := by
  rw [Source.handleUninvite]
  split
  next => exact .refl s
  next => exact .ite (sameStream_disable s ep token) (.refl s)

/-- A sink that asks for a start message gets one, and no new stream. -/
theorem sameStream_handleStartRequest (s : Source) (ep : Nat) :
    SameStream s (s.handleStartRequest ep) := by
  rw [Source.handleStartRequest]
  split
  next => exact .refl s
  next => exact .ite (sameStream_notifyStart s ep) (.refl s)

/-- A stop request is only answered by another stop message. -/
theorem sameStream_handleStopRequest (s : Source) (ep : Nat) (stream : Int) :
    SameStream s (s.handleStopRequest ep stream) := by
  rw [Source.handleStopRequest]
  split
  next => exact .refl s
  next => exact .ite (sameStream_pushRequest s _) (.refl s)

/-- So is an uninvitation for a stream that is not there. -/
theorem sameStream_handleUninviteMessage (s : Source) (ep : Nat) (token : Int) :
    SameStream s (s.handleUninviteMessage ep token) := by
  rw [Source.handleUninviteMessage]
  split
  next => exact sameStream_pushRequest s _
  next => exact .ite (.refl s) (sameStream_pushRequest s _)

/-- Data requests are queued for the sink. -/
theorem sameStream_handleDataRequest (s : Source) (ep : Nat) (streamId : Int)
    (rs : List DataRequest) : SameStream s (s.handleDataRequest ep streamId rs) := by
  rw [Source.handleDataRequest]
  refine .ite (.refl s) ?_
  split
  next => exact .refl s
  next => exact .ite (sameStream_setSink s ep _) (.refl s)

/-! ## The network thread -/

/-- Sent requests are gone, the stream stays. -/
theorem sameStream_dispatchRequests (s : Source) : SameStream s s.dispatchRequests :=
  ⟨rfl, rfl, rfl, rfl, rfl, rfl, rfl, rfl, rfl⟩

/-- `send_start` asks for the encoder, and finds a format. -/
theorem sameStream_sendStart {s : Source} (h : Inv s) (serializes : Bool) :
    SameStream s (s.sendStart serializes) := by
  rw [Source.sendStart]
  split
  next => exact .refl s
  next hannounces =>
    have hstream : s.hasStream = true := by
      simp only [Source.announces, Bool.not_eq_true', Bool.not_eq_false, Bool.and_eq_true]
        at hannounces
      exact hannounces.2
    obtain ⟨f, hf⟩ := Option.ne_none_iff_exists'.mp (h.format (hasStream_iff.mp hstream).1)
    split
    next hnone =>
      rw [hf] at hnone
      cases hnone
    next => dsimp only; split <;> exact ⟨rfl, rfl, rfl, rfl, rfl, rfl, rfl, rfl, rfl⟩

/-- A sent block takes the next sequence number. -/
theorem sendBlock_inv {s : Source} (h : Inv s) (hstream : s.hasStream = true) : Inv s.sendBlock :=
  ⟨h.format, h.blocksize, fun _ => h.stream hstream, h.running, h.rate, h.ratio⟩

/-- Empty blocks for the xruns: nothing can go wrong while there is a stream. -/
theorem sendEmptyBlocks_inv (n : Nat) : ∀ {s : Source}, Inv s → s.crashed = false →
    Inv (Source.sendEmptyBlocks n s) ∧ (Source.sendEmptyBlocks n s).crashed = false := by
  induction n with
  | zero => exact fun h hcrash => ⟨h, hcrash⟩
  | succ n ih =>
    intro s h hcrash
    rw [Source.sendEmptyBlocks]
    split
    next => exact ⟨h, hcrash⟩
    next hstream => exact ih (sendBlock_inv h (by simpa using hstream)) hcrash

/-- `send_xruns` does not ask. -/
theorem sendXruns_keeps {s : Source} (h : Inv s) (hcrash : s.crashed = false) :
    Keeps s.sendXruns (1 / 2 < s.xrunblocks → s.format ≠ none ∧ s.blocksize ≠ 0) := by
  rw [Source.sendXruns]
  by_cases hfew : s.xrunblocks ≤ 1 / 2
  · rw [if_pos hfew]
    exact .of_inv (fun hmany => absurd hmany (not_lt.mpr hfew)) hcrash h
  · rw [if_neg hfew, forall_prop_of_true (not_le.mp hfew)]
    split
    next hnone => exact .of_crash (fun hc => hc.1 hnone) rfl
    next f hf =>
      have hsize : (f.blockSize : ℚ) ≠ 0 := by exact_mod_cast f.blockSize_pos.ne'
      dsimp only
      by_cases hblocksize : s.blocksize = 0
      · have hconvert : double (double (s.ratio * s.blocksize) / f.blockSize) = 0 := by
          rw [hblocksize, Int.cast_zero, mul_zero, double_zero, zero_div, double_zero]
        rw [if_pos hconvert]
        exact .of_crash (fun hc => hc.2 hblocksize) rfl
      · have hconvert : double (double (s.ratio * s.blocksize) / f.blockSize) ≠ 0 := by
          have hcast : (s.blocksize : ℚ) ≠ 0 := by exact_mod_cast hblocksize
          have hproduct := double_ne_zero (mul_ne_zero h.ratio.ne' hcast)
          exact double_ne_zero (div_ne_zero hproduct hsize)
        rw [if_neg hconvert]
        have hC : s.format ≠ none ∧ s.blocksize ≠ 0 := ⟨by rw [hf]; nofun, hblocksize⟩
        have hafter (xrunblocks streamSamples : ℚ) :
            Inv { s with xrunblocks, streamSamples } := h.congr rfl rfl rfl rfl rfl id rfl
        split
        next => exact .of_inv hC hcrash (hafter _ _)
        next =>
          exact .of_and hC (sendEmptyBlocks_inv _ (hafter _ _) hcrash)

/-- The loop of `send_data` asks for the encoder in every iteration. -/
theorem sendBlocks_inv (encodes : Nat → Bool) (n : Nat) : ∀ {s : Source}, Inv s →
    s.crashed = false →
      Inv (Source.sendBlocks encodes n s) ∧ (Source.sendBlocks encodes n s).crashed = false := by
  induction n with
  | zero => exact fun h hcrash => ⟨h, hcrash⟩
  | succ n ih =>
    intro s h hcrash
    rw [Source.sendBlocks]
    split
    next => exact ⟨h, hcrash⟩
    next hasked =>
      have hstream : s.hasStream = true := by simpa using hasked
      obtain ⟨f, hf⟩ := Option.ne_none_iff_exists'.mp (h.format (hasStream_iff.mp hstream).1)
      have hdivisors : ¬ (s.ratio = 0 ∨ s.timeTagDue f ∧ s.samplerate = 0) := by
        rintro (hratio | ⟨-, hrate⟩)
        · exact h.ratio.ne' hratio
        · exact h.stream hstream hrate
      split
      next hnone =>
        rw [hf] at hnone
        cases hnone
      next g hg =>
        rw [hf] at hg
        cases hg
        rw [if_neg hdivisors]
        have hafter (streamSamples : ℚ) : Inv { s with streamSamples, audioQueue := n } :=
          h.congr rfl rfl rfl rfl rfl id rfl
        dsimp only
        split
        next => exact ih (hafter _) hcrash
        next =>
          split
          next => exact ⟨hafter _, hcrash⟩
          next => exact ih (sendBlock_inv (hafter _) hstream) hcrash

/-- Data is sent again from the history. -/
theorem sameStream_resendData (s : Source) (frames : DataRequest → Nat) :
    SameStream s (s.resendData frames) :=
  .ite (.refl s) ⟨rfl, rfl, rfl, rfl, rfl, rfl, rfl, rfl, rfl⟩

/-- The next part runs as long as nothing has gone wrong. -/
theorem andThen_of_ok {s : Source} (f : Source → Source) (hcrash : s.crashed = false) :
    s.andThen f = f s := by
  rw [Source.andThen, hcrash, if_neg Bool.false_ne_true]

/-- Behind a crash nothing runs. -/
theorem andThen_of_crash {s : Source} (f : Source → Source) (hcrash : s.crashed = true) :
    s.andThen f = s := by
  rw [Source.andThen, if_pos hcrash]

/-- `send` reads the format for empty blocks, without asking whether there is one. -/
theorem send_keeps {s : Source} (h : Inv s) (hcrash : s.crashed = false) (i : Source.SendInput) :
    Keeps (s.send i) (Allowed s (.send i)) := by
  rw [Source.send, Allowed]
  by_cases hsilent : s.isSilent = true
  · rw [if_pos hsilent]
    refine .of_inv (fun hc => ?_) hcrash h
    rw [hsilent] at hc
    cases hc
  · rw [if_neg hsilent, forall_prop_of_true (by simpa using hsilent)]
    -- the first two stages ask, and leave what the third one does not ask for as it is
    have hsame := (sameStream_dispatchRequests s).trans
      (sameStream_sendStart ((sameStream_dispatchRequests s).inv h) i.serializes)
    have hstarted := hsame.crashed.trans hcrash
    have hxruns := sendXruns_keeps (hsame.inv h) hstarted
    rw [hsame.xrunblocks, hsame.format, hsame.blocksize] at hxruns
    rw [andThen_of_ok _ hstarted]
    cases hok : (s.dispatchRequests.sendStart i.serializes).sendXruns.crashed with
    | true =>
      rw [andThen_of_crash _ hok, andThen_of_crash _ hok]
      refine .of_crash (fun hc => ?_) hok
      exact absurd (hok.symm.trans (hxruns.crashed_iff.mpr hc)) (by decide)
    | false =>
      rw [andThen_of_ok _ hok]
      obtain ⟨hinv, hdata⟩ := sendBlocks_inv i.encodes
        (s.dispatchRequests.sendStart i.serializes).sendXruns.audioQueue (hxruns.inv hok) hok
      rw [andThen_of_ok _ hdata]
      have hresend := sameStream_resendData (Source.sendBlocks i.encodes
        (s.dispatchRequests.sendStart i.serializes).sendXruns.audioQueue
        (s.dispatchRequests.sendStart i.serializes).sendXruns) i.frames
      exact .of_inv (hxruns.crashed_iff.mp hok) (hresend.crashed.trans hdata) (hresend.inv hinv)

/-! ## Runs -/

/-- Each step ends well exactly if `Allowed` holds, and keeps the invariant then. -/
theorem step_keeps {s : Source} (h : Inv s) (hcrash : s.crashed = false) (a : Action) :
    Keeps (s.step a) (Allowed s a) := by
  rw [Source.step, andThen_of_ok _ hcrash]
  cases a with
  | setup nchannels samplerate blocksize flags =>
    exact setup_keeps h hcrash nchannels samplerate blocksize flags
  | setFormat result => exact setFormat_keeps h hcrash result
  | startStream => exact .of_inv trivial hcrash (h.congr rfl rfl rfl rfl rfl nofun rfl)
  | stopStream sampleOffset =>
    exact .of_inv trivial hcrash (h.congr rfl rfl rfl rfl rfl nofun rfl)
  | process i => exact process_keeps h hcrash i
  | reportXRun nsamples => exact handleXrun_keeps h hcrash nsamples
  | addSink ep active id => exact (sameStream_addSink s ep active id).keeps h hcrash
  | activate ep b id => exact (sameStream_activate s ep b id).keeps h hcrash
  | handleInvite ep token accept =>
    exact (sameStream_handleInvite s ep token accept).keeps h hcrash
  | handleUninvite ep token accept =>
    exact (sameStream_handleUninvite s ep token accept).keeps h hcrash
  | handleStartRequest ep => exact (sameStream_handleStartRequest s ep).keeps h hcrash
  | handleStopRequest ep stream =>
    exact (sameStream_handleStopRequest s ep stream).keeps h hcrash
  | handleUninviteMessage ep token =>
    exact (sameStream_handleUninviteMessage s ep token).keeps h hcrash
  | handleDataRequest ep streamId rs =>
    exact (sameStream_handleDataRequest s ep streamId rs).keeps h hcrash
  | send i => exact send_keeps h hcrash i

/-- A fault stays. -/
theorem foldl_crashed (as : List Action) : ∀ {s : Source}, s.crashed = true →
    (as.foldl Source.step s).crashed = true := by
  induction as with
  | nil => exact id
  | cons a as ih =>
    intro s hcrash
    rw [List.foldl_cons, Source.step, andThen_of_crash _ hcrash]
    exact ih hcrash

/-- From any state with the invariant: a run has no fault exactly if every step finds what it
needs. -/
theorem run_crashed_iff (as : List Action) : ∀ {s : Source}, Inv s → s.crashed = false →
    ((as.foldl Source.step s).crashed = false ↔ StepsAll Source.step Allowed s as) := by
  induction as with
  | nil => exact fun _ hcrash => iff_of_true hcrash trivial
  | cons a as ih =>
    intro s h hcrash
    have hkeeps := step_keeps h hcrash a
    rw [List.foldl_cons, StepsAll]
    cases hok : (s.step a).crashed with
    | true =>
      refine iff_of_false ?_ (fun hc => ?_)
      · rw [foldl_crashed as hok]
        exact Bool.noConfusion
      · exact absurd (hok.symm.trans (hkeeps.crashed_iff.mpr hc.1)) (by decide)
    | false =>
      rw [ih (hkeeps.inv hok) hok]
      exact (and_iff_right (hkeeps.crashed_iff.mp hok)).symm

/-- **Where the code asks, it finds**: in a run of a source, no missing format or encoder is used and
nothing is divided by a zero block size or sample rate, exactly if `add_xrun`, `send_xruns`, the
timer and the queue find what they do not ask for. -/
theorem crashed_iff : ∀ (buffersize resendBuffersize ttInterval : ℚ) (as : List Action),
    (as.foldl Source.step (Source.new buffersize resendBuffersize ttInterval)).crashed = false ↔
      StepsAll Source.step Allowed (Source.new buffersize resendBuffersize ttInterval) as :=
  fun buffersize resendBuffersize ttInterval as =>
    run_crashed_iff as (inv_new buffersize resendBuffersize ttInterval) rfl

/-- A source that is set up and runs, but has no format. The user reports as many samples as there are
in a block. -/
def withoutFormat : List Action :=
  [.setup 2 48000 64 0, .startStream, .process ⟨64, true, true, false, 0, false, fun _ => 1⟩,
    .reportXRun 64]

/-- `send_xruns` takes the block size of a format that is not there. -/
theorem xruns_without_format :
    let s := withoutFormat.foldl Source.step (Source.new 1 1 0)
    s.crashed = false ∧ s.format = none ∧ s.encoder = false ∧
      (s.step (.send ⟨true, fun _ => true, fun _ => 0⟩)).crashed = true := by
  decide +kernel

end Aoo.Stream.Control
