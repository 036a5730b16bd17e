import Aoo.Stream.Control
import Mathlib.Data.List.Induction

/-!
# Announcements

A sink that is deactivated loses its stream id, and if the stream is running, a `/stop` message is
queued. Two things stay behind: the flag that asks for a `/start` message, and the data requests the
sink has sent before. The next `send()` works off both without a look at the stream id, and
that after the `/stop` message.

The record of a source (`log`) says when a sink has been activated and deactivated and what was
sent. Whoever is active has not been deactivated since (`Recorded.on`); blocks are sent to active
sinks only. So the rule is kept by every step that leaves nothing behind (`Attentive`).

**Main result** (`onlyActive_run`): in a run whose calls of `send()` find no inactive sink with a
flag or with data requests that the history can answer, no stream is announced without an
id, and a sink that has been deactivated and stopped gets nothing until it is activated again.
-/

namespace Aoo.Stream.Control

open Lib

/-! ## The rule -/

/-- The sink that a message of a stream is for. -/
def Msg.receiver : Msg → Option Nat
  | .start ep _ _ _ => some ep
  | .stop _ _ _ _ => none
  | .decline _ _ => none
  | .data ep _ => some ep

/-- No stream is announced without an id, and nothing is sent to a sink after its `/stop`, until
it is activated again. -/
structure OnlyActive (log : List Note) : Prop where
  valid : ∀ ep id seqStart f, Note.sent (.start ep id seqStart f) ∈ log → id ≠ kAooIdInvalid
  stopped : ∀ l₁ l₂ l₃ l₄ ep stream lastSeq offset m,
    log = l₁ ++ .deactivated ep :: (l₂ ++ .sent (.stop ep stream lastSeq offset) ::
      (l₃ ++ .sent m :: l₄)) →
    m.receiver = some ep → Note.activated ep ∈ l₂ ++ l₃

/-- What the record says last about a sink is that it was deactivated. -/
def isOff (ep : Nat) (log : List Note) : Bool :=
  log.foldl
    (fun off n => if n = .deactivated ep then true else if n = .activated ep then false else off)
    false

/-- Whether an episode is over is decided by its latest note. -/
theorem isOff_append_one (ep : Nat) (log : List Note) (n : Note) :
    isOff ep (log ++ [n]) =
      if n = .deactivated ep then true else if n = .activated ep then false else isOff ep log := by
  rw [isOff, List.foldl_append]
  rfl

/-- Messages do not end an episode. -/
theorem isOff_append_sent (ep : Nat) (ms : List Msg) :
    ∀ log : List Note, isOff ep (log ++ ms.map .sent) = isOff ep log := by
  induction ms with
  | nil =>
    intro log
    rw [List.map_nil, List.append_nil]
  | cons m ms ih =>
    intro log
    rw [List.map_cons, List.append_cons, ih, isOff_append_one, if_neg nofun, if_neg nofun]

/-- A sink stays off until it is activated. -/
theorem isOff_of_not_activated {ep : Nat} (log : List Note) (l : List Note) :
    Note.activated ep ∉ l → isOff ep (log ++ .deactivated ep :: l) = true := by
  induction l using List.reverseRecOn with
  | nil =>
    intro _
    rw [isOff_append_one, if_pos rfl]
  | append_singleton l n ih =>
    intro hnot
    rw [List.mem_append, not_or, List.mem_singleton] at hnot
    rw [← List.cons_append, ← List.append_assoc, isOff_append_one, if_neg (Ne.symm hnot.2),
      ih hnot.1]
    split <;> rfl

/-- A message that may be sent after `log`. -/
structure Msg.Follows (m : Msg) (log : List Note) : Prop where
  on : ∀ ep, m.receiver = some ep → isOff ep log = false
  valid : ∀ ep id seqStart f, m = .start ep id seqStart f → id ≠ kAooIdInvalid

/-- Every message was sent when it may be sent. -/
def Proper (log : List Note) : Prop :=
  ∀ l₁ m l₂, log = l₁ ++ .sent m :: l₂ → m.Follows l₁

/-- Messages that follow the log go to active sinks only. -/
theorem Proper.onlyActive {log : List Note} (h : Proper log) : OnlyActive log := by
  refine ⟨?_, ?_⟩
  · intro ep id seqStart f hmem
    obtain ⟨l₁, l₂, heq⟩ := List.append_of_mem hmem
    exact (h l₁ _ l₂ heq).valid ep id seqStart f rfl
  · intro l₁ l₂ l₃ l₄ ep stream lastSeq offset m heq hreceiver
    by_contra hnot
    have hoff : isOff ep (l₁ ++ .deactivated ep ::
        (l₂ ++ .sent (.stop ep stream lastSeq offset) :: l₃)) = true := by
      apply isOff_of_not_activated
      simpa only [List.mem_append, List.mem_cons, reduceCtorEq, false_or] using hnot
    have hsplit : log = (l₁ ++ .deactivated ep ::
        (l₂ ++ .sent (.stop ep stream lastSeq offset) :: l₃)) ++ .sent m :: l₄ := by
      rw [heq]
      simp only [List.append_assoc, List.cons_append]
    have hon := (h _ m l₄ hsplit).on ep hreceiver
    exact absurd (hoff.symm.trans hon) (by decide)

/-- A note can be added if a message, should it be one, follows the log. -/
theorem Proper.append_one {log : List Note} {n : Note} (h : Proper log)
    (hn : ∀ m, n = .sent m → m.Follows log) : Proper (log ++ [n]) := by
  intro l₁ m l₂ heq
  rcases List.eq_nil_or_concat l₂ with rfl | ⟨l, a, rfl⟩
  · obtain ⟨rfl, hlast⟩ := List.append_inj' heq rfl
    cases hlast
    exact hn m rfl
  · rw [List.concat_eq_append, ← List.cons_append, ← List.append_assoc] at heq
    exact h l₁ m l (List.append_inj' heq rfl).1

/-- A message behind another one follows the log as it would without that one. -/
theorem Msg.Follows.append_sent {m : Msg} {log : List Note} (h : m.Follows log) (m' : Msg) :
    m.Follows (log ++ [.sent m']) := by
  refine ⟨fun ep hep => ?_, h.valid⟩
  rw [isOff_append_one, if_neg nofun, if_neg nofun]
  exact h.on ep hep

/-- Several messages can be added if each follows the log. -/
theorem Proper.append_sent (ms : List Msg) : ∀ {log : List Note}, Proper log →
    (∀ m ∈ ms, m.Follows log) → Proper (log ++ ms.map .sent) := by
  induction ms with
  | nil =>
    intro log h _
    rw [List.map_nil, List.append_nil]
    exact h
  | cons m ms ih =>
    intro log h hms
    rw [List.map_cons, List.append_cons]
    apply ih
    · apply h.append_one
      intro m' heq
      cases heq
      exact hms m (List.mem_cons_self ..)
    · intro m' hm'
      exact (hms m' (List.mem_cons_of_mem _ hm')).append_sent m

/-! ## The record -/

/-- The record knows the active sinks, and only they got something. -/
structure Recorded (s : Source) : Prop where
  on : ∀ x ∈ s.sinks, x.isActive = true → isOff x.ep s.log = false
  proper : Proper s.log

/-- Nothing is lost if the log stays and no sink is active that was not active before. -/
theorem Recorded.congr {s t : Source} (h : Recorded s) (hlog : t.log = s.log)
    (hsinks : ∀ y ∈ t.sinks, y.isActive = true → ∃ x ∈ s.sinks, x.isActive = true ∧ x.ep = y.ep) :
    Recorded t := by
  refine ⟨?_, ?_⟩
  · intro y hy hactive
    obtain ⟨x, hx, hxactive, hep⟩ := hsinks y hy hactive
    rw [hlog, ← hep]
    exact h.on x hx hxactive
  · rw [hlog]
    exact h.proper

/-- A sink without a stream is not active. -/
theorem not_isActive {x : Sink} (h : x.streamId = kAooIdInvalid) : x.isActive = false := by
  rw [Sink.isActive, decide_eq_false_iff_not, not_not]
  exact h

/-- Neither the sinks nor the record have changed. -/
structure SameSinks (s t : Source) : Prop where
  sinks : t.sinks = s.sinks
  log : t.log = s.log

/-- What leaves sinks and log alone keeps the record. -/
theorem Recorded.same {s t : Source} (h : Recorded s) (hst : SameSinks s t) : Recorded t :=
  h.congr hst.log fun y hy hactive => ⟨y, hst.sinks ▸ hy, hactive, rfl⟩

theorem SameSinks.refl (s : Source) : SameSinks s s := ⟨rfl, rfl⟩

/-- Two steps that leave sinks and log alone are one. -/
theorem SameSinks.trans {s t u : Source} (h : SameSinks s t) (g : SameSinks t u) : SameSinks s u :=
  ⟨g.sinks.trans h.sinks, g.log.trans h.log⟩

/-- Both branches leave sinks and log alone. -/
theorem SameSinks.ite {s t u : Source} {p : Prop} [Decidable p] (ht : SameSinks s t)
    (hu : SameSinks s u) : SameSinks s (if p then t else u) := by
  split
  next => exact ht
  next => exact hu

/-! ## Settings and audio -/

/-- The new audio queue is nothing to the sinks. -/
theorem sameSinks_updateAudioQueue (s : Source) : SameSinks s s.updateAudioQueue := by
  rw [Source.updateAudioQueue]
  refine .ite ?_ (.refl s)
  split
  next => exact ⟨rfl, rfl⟩
  next => exact .ite ⟨rfl, rfl⟩ ⟨rfl, rfl⟩

/-- Neither is the new resampler. -/
theorem sameSinks_updateResampler (s : Source) : SameSinks s s.updateResampler := by
  rw [Source.updateResampler]
  split
  next => exact .refl s
  next => exact .ite ⟨rfl, rfl⟩ (.refl s)

/-- Neither is the new history. -/
theorem sameSinks_updateHistoryBuffer (s : Source) : SameSinks s s.updateHistoryBuffer := by
  rw [Source.updateHistoryBuffer]
  refine .ite ?_ (.refl s)
  split
  next => exact ⟨rfl, rfl⟩
  next => exact ⟨rfl, rfl⟩

/-- A new setup or format changes buffers, not sinks. -/
theorem sameSinks_reconfigure (s : Source) : SameSinks s s.reconfigure := by
  have h := ((sameSinks_updateAudioQueue s).trans (sameSinks_updateResampler _)).trans
    (sameSinks_updateHistoryBuffer _)
  exact ⟨h.sinks, h.log⟩

/-- A restart is only asked for; the next stream is made in `process`. -/
theorem sameSinks_restartStream (s : Source) : SameSinks s s.restartStream :=
  .ite ⟨rfl, rfl⟩ (.refl s)

/-- `setup` sends nothing and leaves the sinks alone. -/
theorem sameSinks_setup (s : Source) (nchannels : Int) (samplerate : ℚ) (blocksize : Int)
    (flags : Nat) : SameSinks s (s.setup nchannels samplerate blocksize flags) := by
  have hset (flags : Nat) (nchannels blocksize samplerate : Int) :
      SameSinks s { s with flags, nchannels, blocksize, samplerate } := ⟨rfl, rfl⟩
  have htimer {t : Source} (h : SameSinks s t) : SameSinks s { t with needResetTimer := true } :=
    ⟨h.sinks, h.log⟩
  rw [Source.setup]
  refine .ite (.ite ?_ ⟨rfl, rfl⟩) (.refl s)
  apply htimer
  refine SameSinks.trans ?_ (sameSinks_restartStream _)
  exact .ite ((hset _ _ _ _).trans (sameSinks_reconfigure _)) (hset _ _ _ _)

/-- `set_format` sends nothing and leaves the sinks alone. -/
theorem sameSinks_setFormat (s : Source) (result : Source.FormatResult) :
    SameSinks s (s.setFormat result) := by
  cases result with
  | unsupported => exact .refl s
  | refused => exact ⟨rfl, rfl⟩
  | accepted f =>
    have h : SameSinks s { s with encoder := true, format := some f } := ⟨rfl, rfl⟩
    exact (h.trans (sameSinks_reconfigure _)).trans (sameSinks_restartStream _)

/-- Xruns are counted, not announced. -/
theorem sameSinks_addXrun (s : Source) (nsamples : Int) : SameSinks s (s.addXrun nsamples) :=
  .ite ⟨rfl, rfl⟩ ⟨rfl, rfl⟩

/-- An xrun that the user reports changes the count only. -/
theorem sameSinks_handleXrun (s : Source) (nsamples : Int) :
    SameSinks s (s.handleXrun nsamples) :=
  ⟨(sameSinks_addXrun s nsamples).sinks, (sameSinks_addXrun s nsamples).log⟩

/-- The audio of a call goes into the queue, past the sinks. -/
theorem sameSinks_processAudio (s : Source) (i : Source.ProcessInput) :
    SameSinks s (s.processAudio i) := by
  have htimer : SameSinks s s.updateTimer := .ite (.ite ⟨rfl, rfl⟩ ⟨rfl, rfl⟩) (.refl s)
  rw [Source.processAudio]
  refine .ite htimer (.ite (htimer.trans (sameSinks_addXrun _ _)) (.ite htimer ?_))
  split
  next => exact ⟨htimer.sinks, htimer.log⟩
  next =>
    refine .ite ⟨htimer.sinks, htimer.log⟩ ?_
    have hqueue (audioQueue : Nat) : SameSinks s { s.updateTimer with audioQueue } :=
      ⟨htimer.sinks, htimer.log⟩
    exact .ite ((hqueue _).trans (sameSinks_addXrun _ _)) (hqueue _)

/-- A new stream has new ids, but only for sinks that have one. -/
theorem makeNewStream_recorded {s : Source} (h : Recorded s) (ids : Nat → Nat) :
    Recorded (s.makeNewStream ids) := by
  refine h.congr rfl ?_
  intro y hy hactive
  obtain ⟨x, hx, rfl⟩ := List.mem_map.mp hy
  rw [Sink.start] at hactive ⊢
  split at hactive
  next hon => exact ⟨x, hx, hon, by rw [if_pos hon]⟩
  next hoff => exact absurd hactive hoff

/-- `process` keeps the record, also where it makes a new stream. -/
theorem process_recorded {s : Source} (h : Recorded s) (i : Source.ProcessInput) :
    Recorded (s.process i) := by
  rw [Source.process]
  split
  next => exact h
  next => exact h.same ⟨rfl, rfl⟩
  next =>
    split
    next =>
      have hrun : SameSinks s { s with state := .run } := ⟨rfl, rfl⟩
      exact (makeNewStream_recorded (h.same hrun) i.ids).same (sameSinks_processAudio _ i)
    next => exact h
  next => exact h.same (sameSinks_processAudio s i)

/-! ## The sinks -/

/-- A change of one sink that keeps it active or inactive keeps the record. -/
theorem setSink_recorded {s : Source} (h : Recorded s) (ep : Nat) (f : Sink → Sink)
    (hep : ∀ x, (f x).ep = x.ep) (hf : ∀ x, (f x).isActive = x.isActive) :
    Recorded (s.setSink ep f) := by
  refine h.congr rfl ?_
  intro y hy hactive
  obtain ⟨x, hx, rfl⟩ := List.mem_map.mp hy
  split at hactive
  next hx' => exact ⟨x, hx, (hf x).symm.trans hactive, by rw [if_pos hx', hep]⟩
  next hx' => exact ⟨x, hx, hactive, by rw [if_neg hx']⟩

/-- To ask for a start message is no message. -/
theorem notifyStart_recorded {s : Source} (h : Recorded s) (ep : Nat) :
    Recorded (s.notifyStart ep) :=
  (setSink_recorded h ep (fun x => { x with needStart := true }) (fun _ => rfl) fun _ => rfl).same
    ⟨rfl, rfl⟩

/-- A request that waits is not sent yet. -/
theorem pushRequest_recorded {s : Source} (h : Recorded s) (r : Request) :
    Recorded (s.pushRequest r) := h.same ⟨rfl, rfl⟩

/-- The sinks at one end get a stream id. -/
theorem activated_recorded {s : Source} (h : Recorded s) (ep : Nat) {sinks : List Sink}
    (hsinks : ∀ y ∈ sinks, y.ep ≠ ep → y ∈ s.sinks) :
    Recorded ({ s with sinks }.note (.activated ep)) := by
  refine ⟨?_, h.proper.append_one nofun⟩
  intro y hy hactive
  show isOff y.ep (s.log ++ [.activated ep]) = false
  rw [isOff_append_one, if_neg nofun]
  split
  next => rfl
  next hne => exact h.on y (hsinks y hy fun hep => hne (by rw [hep])) hactive

/-- A sink is activated together with the note in the log. -/
theorem enable_recorded {s : Source} (h : Recorded s) (ep : Nat) (id : Int) :
    Recorded (s.enable ep id) := by
  have hon : Recorded ((s.setSink ep fun x => { x with streamId := id }).note (.activated ep)) := by
    apply activated_recorded h
    intro y hy hne
    obtain ⟨x, hx, rfl⟩ := List.mem_map.mp hy
    split at hne
    next hep => exact absurd hep hne
    next hep =>
      rw [if_neg hep]
      exact hx
  rw [Source.enable]
  split
  next => exact notifyStart_recorded hon ep
  next => exact hon

/-- A sink that is off has no stream id. -/
theorem disable_recorded {s : Source} (h : Recorded s) (ep : Nat) (stream : Int) :
    Recorded (s.disable ep stream) := by
  have hoff : Recorded
      ((s.setSink ep fun x => { x with streamId := kAooIdInvalid }).note (.deactivated ep)) := by
    refine ⟨?_, h.proper.append_one nofun⟩
    intro y hy hactive
    obtain ⟨x, hx, rfl⟩ := List.mem_map.mp hy
    show isOff _ (s.log ++ [.deactivated ep]) = false
    split at hactive
    next => exact absurd ((not_isActive rfl).symm.trans hactive) (by decide)
    next hep =>
      rw [if_neg hep, isOff_append_one, if_neg, if_neg nofun]
      · exact h.on x hx hactive
      · intro heq
        cases heq
        exact hep rfl
  rw [Source.disable]
  split
  next => exact pushRequest_recorded hoff _
  next => exact hoff

/-- A new sink is in the log if it is active. -/
theorem addSink_recorded {s : Source} (h : Recorded s) (ep : Nat) (active : Bool) (id : Nat) :
    Recorded (s.addSink ep active id) := by
  rw [Source.addSink]
  split
  next => exact h
  next =>
    cases active with
    | false =>
      refine h.congr rfl ?_
      intro y hy hactive
      rcases List.mem_cons.mp hy with rfl | hy
      · exact absurd ((not_isActive rfl).symm.trans hactive) (by decide)
      · exact ⟨y, hy, hactive, rfl⟩
    | true =>
      have hon : Recorded (({ s with sinks := ⟨ep, id, false, []⟩ :: s.sinks } : Source).note
          (.activated ep)) := by
        apply activated_recorded h
        intro y hy hne
        rcases List.mem_cons.mp hy with rfl | hy
        · exact absurd rfl hne
        · exact hy
      simp only [if_true]
      split
      next => exact notifyStart_recorded hon ep
      next => exact hon

/-- Both branches keep the record. -/
theorem Recorded.ite {t u : Source} {p : Prop} [Decidable p] (ht : Recorded t) (hu : Recorded u) :
    Recorded (if p then t else u) := by
  split
  next => exact ht
  next => exact hu

/-- `activate` notes what it switches on or off. -/
theorem activate_recorded {s : Source} (h : Recorded s) (ep : Nat) (b : Bool) (id : Nat) :
    Recorded (s.activate ep b id) := by
  rw [Source.activate]
  split
  next => exact h
  next => exact .ite (enable_recorded h ep id) (disable_recorded h ep _)

/-- An invitation that is accepted activates the sink with a note. -/
theorem handleInvite_recorded {s : Source} (h : Recorded s) (ep : Nat) (token : Int)
    (accept : Bool) : Recorded (s.handleInvite ep token accept) := by
  rw [Source.handleInvite]
  split
  next => exact h
  next => exact .ite (enable_recorded h ep token) (pushRequest_recorded h _)

/-- An uninvitation that is accepted deactivates the sink with a note. -/
theorem handleUninvite_recorded {s : Source} (h : Recorded s) (ep : Nat) (token : Int)
    (accept : Bool) : Recorded (s.handleUninvite ep token accept) := by
  rw [Source.handleUninvite]
  split
  next => exact h
  next => exact .ite (disable_recorded h ep token) h

/-! ## The messages of the sinks -/

/-- A start request only asks for a start message. -/
theorem handleStartRequest_recorded {s : Source} (h : Recorded s) (ep : Nat) :
    Recorded (s.handleStartRequest ep) := by
  rw [Source.handleStartRequest]
  split
  next => exact h
  next => exact .ite (notifyStart_recorded h ep) h

/-- A stop request is queued for the next `send`. -/
theorem handleStopRequest_recorded {s : Source} (h : Recorded s) (ep : Nat) (stream : Int) :
    Recorded (s.handleStopRequest ep stream) := by
  rw [Source.handleStopRequest]
  split
  next => exact h
  next => exact .ite (pushRequest_recorded h _) h

/-- An uninvitation of a sink that is not active is queued as a decline. -/
theorem handleUninviteMessage_recorded {s : Source} (h : Recorded s) (ep : Nat) (token : Int) :
    Recorded (s.handleUninviteMessage ep token) := by
  rw [Source.handleUninviteMessage]
  split
  next => exact pushRequest_recorded h _
  next => exact .ite h (pushRequest_recorded h _)

/-- Data requests wait in the sink. -/
theorem handleDataRequest_recorded {s : Source} (h : Recorded s) (ep : Nat) (streamId : Int)
    (rs : List DataRequest) : Recorded (s.handleDataRequest ep streamId rs) := by
  rw [Source.handleDataRequest]
  refine .ite h ?_
  split
  next => exact h
  next => exact .ite (setSink_recorded h ep _ (fun _ => rfl) fun _ => rfl) h

/-! ## `send` -/

/-- What is left behind: `send()` finds no inactive sink with a flag when it announces, and no
inactive sink with a request that the history can answer when it resends. -/
def Attentive (s : Source) : Action → Prop
  | .send i =>
    s.isSilent = false →
      (s.announces = true → i.serializes = true →
        ∀ x ∈ s.sinks, x.needStart = true → x.isActive = true) ∧
      (s.historyCapacity ≠ 0 →
        ∀ x ∈ s.sinks, x.isActive = false → ∀ r ∈ x.dataRequests, i.frames r = 0)
  | _ => True

/-- The second half, which has to wait until the end of `send()`. -/
structure Ready (frames : DataRequest → Nat) (s : Source) : Prop extends Recorded s where
  served : s.historyCapacity ≠ 0 →
    ∀ x ∈ s.sinks, x.isActive = false → ∀ r ∈ x.dataRequests, frames r = 0

/-- What leaves sinks, log and history alone leaves the source ready. -/
theorem Ready.same {frames : DataRequest → Nat} {s t : Source} (h : Ready frames s)
    (hst : SameSinks s t) (hcapacity : t.historyCapacity = s.historyCapacity) : Ready frames t := by
  refine ⟨h.toRecorded.same hst, ?_⟩
  rw [hcapacity, hst.sinks]
  exact h.served

/-- A source that sends messages that follow the log stays ready. -/
theorem Ready.sendAll {frames : DataRequest → Nat} {s : Source} (h : Ready frames s)
    {ms : List Msg} (hms : ∀ m ∈ ms, m.Follows s.log) : Ready frames (s.sendAll ms) := by
  refine ⟨⟨?_, h.proper.append_sent ms hms⟩, h.served⟩
  intro x hx hactive
  show isOff x.ep (s.log ++ ms.map .sent) = false
  rw [isOff_append_sent]
  exact h.on x hx hactive

/-- An active sink can be sent data. -/
theorem Recorded.data {s : Source} (h : Recorded s) {x : Sink} (hx : x ∈ s.sinks)
    (hactive : x.isActive = true) : (Msg.data x.ep x.streamId).Follows s.log := by
  refine ⟨?_, nofun⟩
  intro ep hep
  cases hep
  exact h.on x hx hactive

/-- A start message for an active sink follows the log. -/
theorem Recorded.start {s : Source} (h : Recorded s) {x : Sink} (hx : x ∈ s.sinks)
    (hactive : x.isActive = true) (f : Format) :
    (Msg.start x.ep x.streamId s.sequence f).Follows s.log := by
  refine ⟨?_, ?_⟩
  · intro ep hep
    cases hep
    exact h.on x hx hactive
  · intro ep id seqStart g heq
    cases heq
    exact of_decide_eq_true hactive

/-- The queued stop and decline messages follow the log. -/
theorem dispatchRequests_ready {frames : DataRequest → Nat} {s : Source} (h : Ready frames s) :
    Ready frames s.dispatchRequests := by
  refine (h.sendAll ?_).same ⟨rfl, rfl⟩ rfl
  intro m hm
  obtain ⟨r, -, rfl⟩ := List.mem_map.mp hm
  cases r with
  | stop ep stream offset => exact ⟨nofun, nofun⟩
  | decline ep token => exact ⟨nofun, nofun⟩

/-- Start messages follow the log if the sinks that wait for one are active. -/
theorem sendStart_ready {frames : DataRequest → Nat} {s : Source} (h : Ready frames s)
    (serializes : Bool)
    (hactive : s.announces = true → serializes = true →
      ∀ x ∈ s.sinks, x.needStart = true → x.isActive = true) :
    Ready frames (s.sendStart serializes) := by
  rw [Source.sendStart]
  split
  next => exact h
  next hannounces =>
    split
    next => exact h.same ⟨rfl, rfl⟩ rfl
    next f hf =>
      have hflag : Ready frames { s with needStart := false } := h.same ⟨rfl, rfl⟩ rfl
      dsimp only
      split
      next => exact hflag
      next hserializes =>
        have hall := hactive (by simpa using hannounces) (by simpa using hserializes)
        have hsent : Ready frames (({ s with needStart := false } : Source).sendAll
            ((s.sinks.filter Sink.needStart).map fun x =>
              .start x.ep x.streamId s.sequence f)) := by
          apply hflag.sendAll
          intro m hm
          obtain ⟨x, hx, rfl⟩ := List.mem_map.mp hm
          obtain ⟨hx, hneed⟩ := List.mem_filter.mp hx
          exact h.start hx (hall x hx hneed) f
        -- the flags of the sinks are taken back, which nothing depends on
        refine ⟨hsent.toRecorded.congr rfl ?_, ?_⟩
        · intro y hy hyactive
          obtain ⟨x, hx, rfl⟩ := List.mem_map.mp hy
          exact ⟨x, hx, hyactive, rfl⟩
        · intro hcapacity y hy hinactive
          obtain ⟨x, hx, rfl⟩ := List.mem_map.mp hy
          exact h.served hcapacity x hx hinactive

/-- A block goes to active sinks only. -/
theorem sendBlock_ready {frames : DataRequest → Nat} {s : Source} (h : Ready frames s) :
    Ready frames s.sendBlock := by
  refine (h.sendAll ?_).same ⟨rfl, rfl⟩ rfl
  intro m hm
  obtain ⟨x, hx, rfl⟩ := List.mem_map.mp hm
  obtain ⟨hx, hactive⟩ := List.mem_filter.mp hx
  exact h.data hx hactive

/-- So do the empty blocks of an xrun. -/
theorem sendEmptyBlocks_ready {frames : DataRequest → Nat} (n : Nat) : ∀ {s : Source},
    Ready frames s → Ready frames (Source.sendEmptyBlocks n s) := by
  induction n with
  | zero => exact id
  | succ n ih =>
    intro s h
    rw [Source.sendEmptyBlocks]
    split
    next => exact h
    next => exact ih (sendBlock_ready h)

/-- `send_xruns` sends empty blocks or nothing. -/
theorem sendXruns_ready {frames : DataRequest → Nat} {s : Source} (h : Ready frames s) :
    Ready frames s.sendXruns := by
  rw [Source.sendXruns]
  split
  next => exact h
  next =>
    split
    next => exact h.same ⟨rfl, rfl⟩ rfl
    next =>
      dsimp only
      split
      next => exact h.same ⟨rfl, rfl⟩ rfl
      next =>
        have hafter (xrunblocks streamSamples : ℚ) :
            Ready frames { s with xrunblocks, streamSamples } := h.same ⟨rfl, rfl⟩ rfl
        split
        next => exact hafter _ _
        next => exact sendEmptyBlocks_ready _ (hafter _ _)

/-- The loop of `send_data` sends block after block. -/
theorem sendBlocks_ready {frames : DataRequest → Nat} (encodes : Nat → Bool) (n : Nat) :
    ∀ {s : Source}, Ready frames s → Ready frames (Source.sendBlocks encodes n s) := by
  induction n with
  | zero => exact id
  | succ n ih =>
    intro s h
    rw [Source.sendBlocks]
    split
    next => exact h
    next =>
      split
      next => exact h.same ⟨rfl, rfl⟩ rfl
      next =>
        split
        next => exact h.same ⟨rfl, rfl⟩ rfl
        next =>
          have hafter (streamSamples : ℚ) : Ready frames { s with streamSamples, audioQueue := n } :=
            h.same ⟨rfl, rfl⟩ rfl
          dsimp only
          split
          next => exact ih (hafter _)
          next =>
            split
            next => exact hafter _
            next => exact ih (sendBlock_ready (hafter _))

/-- Only what an active sink has asked for is resent. -/
theorem resendData_recorded {frames : DataRequest → Nat} {s : Source} (h : Ready frames s) :
    Recorded (s.resendData frames) := by
  rw [Source.resendData]
  split
  next => exact h.toRecorded
  next hcapacity =>
    have hsent : Ready frames (s.sendAll (s.sinks.flatMap (Source.resentMsgs frames))) := by
      apply h.sendAll
      intro m hm
      obtain ⟨x, hx, hm⟩ := List.mem_flatMap.mp hm
      obtain ⟨r, hr, hm⟩ := List.mem_flatMap.mp hm
      obtain ⟨hframes, rfl⟩ := List.mem_replicate.mp hm
      cases hactive : x.isActive with
      | true => exact h.data hx hactive
      | false => exact absurd (h.served hcapacity x hx hactive r hr) hframes
    refine hsent.toRecorded.congr rfl ?_
    intro y hy hactive
    obtain ⟨x, hx, rfl⟩ := List.mem_map.mp hy
    exact ⟨x, hx, hactive, rfl⟩

/-- The next part of `send` begins where the last one was ready, or is left out. -/
theorem Ready.andThen {frames : DataRequest → Nat} {s : Source} (h : Ready frames s)
    {f : Source → Source} (hf : ∀ {t}, Ready frames t → Ready frames (f t)) :
    Ready frames (s.andThen f) := by
  rw [Source.andThen]
  split
  next => exact h
  next => exact hf h

/-- `send` keeps the record if no sink that was switched off waits for a start message. -/
theorem send_recorded {s : Source} (h : Recorded s) (i : Source.SendInput)
    (hattentive : Attentive s (.send i)) : Recorded (s.send i) := by
  rw [Source.send]
  split
  next => exact h
  next hsilent =>
    obtain ⟨hactive, hserved⟩ := hattentive (by simpa using hsilent)
    have hstart : Ready i.frames (s.dispatchRequests.sendStart i.serializes) :=
      sendStart_ready (dispatchRequests_ready ⟨h, hserved⟩) i.serializes hactive
    have hdata := (hstart.andThen sendXruns_ready).andThen fun {t} ht =>
      sendBlocks_ready i.encodes t.audioQueue ht
    refine .ite hdata.toRecorded ?_
    exact resendData_recorded hdata

/-! ## Runs -/

/-- Every attentive step keeps the record. -/
theorem step_recorded {s : Source} (h : Recorded s) (a : Action) (ha : Attentive s a) :
    Recorded (s.step a) := by
  refine .ite h ?_
  cases a with
  | setup nchannels samplerate blocksize flags =>
    exact h.same (sameSinks_setup s nchannels samplerate blocksize flags)
  | setFormat result => exact h.same (sameSinks_setFormat s result)
  | startStream => exact h.same ⟨rfl, rfl⟩
  | stopStream sampleOffset => exact h.same ⟨rfl, rfl⟩
  | process i => exact process_recorded h i
  | reportXRun nsamples => exact h.same (sameSinks_handleXrun s nsamples)
  | addSink ep active id => exact addSink_recorded h ep active id
  | activate ep b id => exact activate_recorded h ep b id
  | handleInvite ep token accept => exact handleInvite_recorded h ep token accept
  | handleUninvite ep token accept => exact handleUninvite_recorded h ep token accept
  | handleStartRequest ep => exact handleStartRequest_recorded h ep
  | handleStopRequest ep stream => exact handleStopRequest_recorded h ep stream
  | handleUninviteMessage ep token => exact handleUninviteMessage_recorded h ep token
  | handleDataRequest ep streamId rs => exact handleDataRequest_recorded h ep streamId rs
  | send i => exact send_recorded h i ha

/-- Every run of attentive steps does. -/
theorem run_recorded (as : List Action) : ∀ {s : Source}, Recorded s →
    StepsAll Source.step Attentive s as → Recorded (as.foldl Source.step s) := by
  induction as with
  | nil => exact fun h _ => h
  | cons a as ih =>
    intro s h hsteps
    exact ih (step_recorded h a hsteps.1) hsteps.2

/-- A new source has no sinks and has sent nothing. -/
theorem recorded_new (buffersize resendBuffersize ttInterval : ℚ) :
    Recorded (Source.new buffersize resendBuffersize ttInterval) := by
  refine ⟨nofun, ?_⟩
  intro l₁ m l₂ heq
  exact absurd heq.symm (List.append_ne_nil_of_right_ne_nil _ nofun)

/-- **Who has nothing left behind is not announced**: in a run whose calls of `send()` find no
inactive sink with a flag or with data requests that the history can answer, every `/start`
message has a stream id, and nothing goes to a sink after its `/stop`, until it is activated
again. -/
theorem onlyActive_run : ∀ (buffersize resendBuffersize ttInterval : ℚ) (as : List Action),
    StepsAll Source.step Attentive (Source.new buffersize resendBuffersize ttInterval) as →
      OnlyActive (as.foldl Source.step (Source.new buffersize resendBuffersize ttInterval)).log :=
  fun buffersize resendBuffersize ttInterval as hsteps =>
    (run_recorded as (recorded_new buffersize resendBuffersize ttInterval) hsteps).proper.onlyActive

theorem running_blockSize : 0 < 64 := by decide

theorem running_sampleRate : 0 < 48000 := by decide

/-- A source that runs, with a sink that is not active. -/
def running : List Action :=
  [.setup 2 48000 64 0,
    .setFormat (.accepted ⟨64, 48000, running_blockSize, running_sampleRate⟩), .startStream,
    .addSink 1 false 0, .process ⟨64, true, true, false, 0, false, fun _ => 7⟩]

/-- The sink is activated, served and deactivated. -/
def obedient : List Action :=
  running ++ [.activate 1 true 8, .process ⟨64, true, true, false, 1, false, fun _ => 7⟩,
    .send ⟨true, fun _ => true, fun _ => 1⟩, .activate 1 false 0,
    .send ⟨true, fun _ => true, fun _ => 1⟩]

/-- The conditions of the theorem hold of a run with invitations, stops and data requests. -/
theorem obedient_onlyActive :
    OnlyActive (obedient.foldl Source.step (Source.new 1 1 0)).log := by
  apply onlyActive_run 1 1 0 obedient
  refine ⟨trivial, trivial, trivial, trivial, trivial, trivial, trivial, ?_, trivial, ?_, trivial⟩
  · unfold Attentive
    decide +kernel
  · unfold Attentive
    decide +kernel

/-- The sink is deactivated before its announcement was sent. -/
def abandoned : List Action :=
  running ++ [.activate 1 true 8, .activate 1 false 0,
    .process ⟨64, true, true, false, 1, false, fun _ => 7⟩,
    .send ⟨true, fun _ => true, fun _ => 1⟩]

/-- Then it is stopped first, and announced without an id. -/
theorem announced_inactive :
    (abandoned.foldl Source.step (Source.new 1 1 0)).log =
      [.activated 1, .deactivated 1, .sent (.stop 1 8 0 0),
        .sent (.start 1 kAooIdInvalid 0 ⟨64, 48000, by decide, by decide⟩)] ∧
      ¬ OnlyActive (abandoned.foldl Source.step (Source.new 1 1 0)).log := by
  have hlog : (abandoned.foldl Source.step (Source.new 1 1 0)).log =
      [.activated 1, .deactivated 1, .sent (.stop 1 8 0 0),
        .sent (.start 1 kAooIdInvalid 0 ⟨64, 48000, by decide, by decide⟩)] := by
    decide +kernel
  refine ⟨hlog, ?_⟩
  rw [hlog]
  intro h
  exact h.valid 1 kAooIdInvalid 0 ⟨64, 48000, by decide, by decide⟩ (by simp) rfl

end Aoo.Stream.Control
