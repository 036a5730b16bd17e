import Mathlib.Data.List.TakeWhile
import Aoo.Net.Reassembly

/-!
# Unreliable messages

Without `kAooMessageReliable`, nothing is acknowledged and nothing is resent: a message of one
frame is handed over as it comes, and the frames of a longer one are put together in
`current_msg_`. A frame of another such message starts `current_msg_` again. There is
no check for duplicates, and a message that is complete stays in `current_msg_`.

The network loses, repeats and mixes the frames as it likes. What the receiver does depends on the
frames since the last restart only, so this is how a run is described: `since q as` are the
frames of message `q` behind the last frame of another message of several frames.

**Main result** (`delivered_once_iff`): every message is handed over at most once, a
longer one with all of its frames, and `add_frame` sees no complete message, exactly if no
message of one frame comes twice, no longer message is completed twice, and no message has too
many frames. That a longer message is whole holds in every run (`whole_of_run`).
-/

namespace Aoo.Net

open Lib

/-! ## The traffic -/

/-- The messages that a peer sends without `kAooMessageReliable`, by sequence number, each with the
settings it is sent with. Sizes are `int32_t` on the wire. -/
structure UnreliableMessages where
  message : Nat → Message
  packetSize : Nat → PacketSize
  binary : Nat → Bool
  unreliable : ∀ q, (message q).reliable = false
  size_lt : ∀ q, (message q).data.data.length < 2147483648

namespace UnreliableMessages

variable (s : UnreliableMessages)

def maxsize (q : Nat) : Nat := Net.maxsize (s.packetSize q) (s.binary q)

def size (q : Nat) : Nat := (s.message q).data.data.length

/-- The number of frames of message `q`. -/
def frames (q : Nat) : Nat := wireFrames (s.size q) (s.maxsize q)

/-- A copy of a frame that arrives. -/
structure Frame where
  seq : Nat
  index : Nat
  seq_lt : seq < 2147483648
  index_lt : index < s.frames seq

variable {s}

/-- The packet that `send_message` has made for it, as the parser reads it; `none` for one that
the parser refuses. -/
def packet (a : s.Frame) : Option MessagePacket :=
  (messagePacket (s.message a.seq) a.seq (s.maxsize a.seq) a.index).parsed (s.binary a.seq)

/-- The packet as an accepted copy brings it. -/
def received (a : s.Frame) : MessagePacket :=
  (messagePacket (s.message a.seq) a.seq (s.maxsize a.seq) a.index).received

/-- The OSC parser refuses a frame without content: that of an empty message, and the last
frame of a message whose size is a multiple of the frame size. -/
def accepted (a : s.Frame) : Bool :=
  Net.accepted (s.size a.seq) (s.maxsize a.seq) (s.binary a.seq) (false, a.index)

end UnreliableMessages

/-! ## The receiver -/

/-- A message that was handed over: its number, and the frames that had come in since its
reassembly was started. -/
structure Delivery where
  sequence : Int
  numFrames : Int
  frames : Finset Nat

/-- A message of several frames is handed over with all of them. -/
def Delivery.Whole (d : Delivery) : Prop :=
  d.numFrames > 1 → ∀ i : Nat, i < d.numFrames → i ∈ d.frames

/-- The receiver with a record of its calls: `received` are the frames since
`current_msg_` was started, `late` counts the calls of `add_frame` on a complete message. -/
structure UnreliableRun where
  peer : Peer
  received : Finset Nat := ∅
  deliveries : List Delivery := []
  late : Nat := 0

namespace UnreliableRun

/-- `do_handle_client_message`, with the record. -/
def step (r : UnreliableRun) (p : MessagePacket) : Except Fault UnreliableRun :=
  match doHandleClientMessage r.peer p (if p.reliable then kAooMessageReliable else 0) with
  | .error e => .error e
  | .ok peer =>
    let starts := decide (r.peer.currentMsg.sequence ≠ p.sequence)
    let received :=
      if p.numFrames > 1 then insert p.frameIndex.toNat (if starts then ∅ else r.received)
      else r.received
    let isLate := decide (p.numFrames > 1) && !starts && r.peer.currentMsg.complete
    .ok { peer, received
          deliveries := r.deliveries ++ (peer.events.drop r.peer.events.length).map fun _ =>
            ⟨p.sequence, p.numFrames, received⟩
          late := r.late + if isLate then 1 else 0 }

/-- What the user may expect. -/
structure Good (r : UnreliableRun) : Prop where
  once : (r.deliveries.map Delivery.sequence).Nodup
  whole : ∀ d ∈ r.deliveries, d.Whole
  late : r.late = 0

end UnreliableRun

/-! ## What has come in -/

namespace UnreliableMessages

variable {s : UnreliableMessages}

/-- The frames of message `q` behind the last frame of another message of several frames. -/
def since (q : Nat) (as : List s.Frame) : List Arrival :=
  ((((as.filter fun a => decide (1 < s.frames a.seq)).reverse.takeWhile fun a =>
    decide (a.seq = q))).reverse).map fun a => (false, a.index)

/-- All frames of message `q` have come in, without a frame of another message of several
frames in between, and none has come since. -/
def Completed (q : Nat) (as : List s.Frame) : Prop :=
  1 < s.frames q ∧ ∀ i < s.frames q, (false, i) ∈ since q as

/-- The next frame does not bring anything for the second time, and its message is not too
long. -/
structure Acceptable (as : List s.Frame) (a : s.Frame) : Prop where
  small : s.frames a.seq ≤ 256
  single : s.frames a.seq = 1 → ∀ b ∈ as, b.seq ≠ a.seq
  once : Completed a.seq (as ++ [a]) → ∀ bs, bs <+: as → ¬ Completed a.seq bs

/-- The condition on the frames that come in. -/
def Orderly (as : List s.Frame) : Prop := ∀ bs a, bs ++ [a] <+: as → Acceptable bs a

theorem frames_pos (q : Nat) : 0 < s.frames q := by
  unfold frames wireFrames
  omega

theorem since_of_single (q : Nat) (as : List s.Frame) {a : s.Frame} (h : ¬ 1 < s.frames a.seq) :
    since q (as ++ [a]) = since q as := by
  rw [since, List.filter_append, List.filter_cons_of_neg (by rw [decide_eq_true_eq]; exact h),
    List.filter_nil, List.append_nil, since]

theorem since_of_multi (q : Nat) (as : List s.Frame) {a : s.Frame} (h : 1 < s.frames a.seq) :
    since q (as ++ [a]) = if a.seq = q then since q as ++ [(false, a.index)] else [] := by
  rw [since, List.filter_append, List.filter_cons_of_pos (by rw [decide_eq_true_eq]; exact h),
    List.filter_nil, List.reverse_append, List.reverse_singleton, List.singleton_append]
  split
  next heq =>
    rw [List.takeWhile_cons_of_pos (by rw [decide_eq_true_eq]; exact heq), List.reverse_cons,
      List.map_append]
    rfl
  next hne =>
    rw [List.takeWhile_cons_of_neg (by rw [decide_eq_true_eq]; exact hne)]
    rfl

theorem mem_since {q : Nat} {as : List s.Frame} {c : Arrival} (h : c ∈ since q as) :
    c.1 = false ∧ c.2 < s.frames q ∧ 1 < s.frames q := by
  rw [since, List.mem_map] at h
  obtain ⟨a, ha, rfl⟩ := h
  rw [List.mem_reverse] at ha
  have hseq : a.seq = q := by simpa using List.mem_takeWhile_imp ha
  have hmem := (List.takeWhile_sublist _).subset ha
  rw [List.mem_reverse, List.mem_filter, decide_eq_true_eq] at hmem
  rw [← hseq]
  exact ⟨rfl, a.index_lt, hmem.2⟩

/-- A frame of message `q` does not take away that it is complete. -/
theorem Completed.append {as : List s.Frame} {a : s.Frame} (h : Completed a.seq as) :
    Completed a.seq (as ++ [a]) := by
  refine ⟨h.1, fun i hi => ?_⟩
  rw [since_of_multi _ _ h.1, if_pos rfl]
  exact List.mem_append_left _ (h.2 i hi)

theorem orderly_nil : Orderly ([] : List s.Frame) := by
  intro bs a h
  exact absurd (List.prefix_nil.mp h) (by simp)

theorem orderly_append {as : List s.Frame} {a : s.Frame} :
    Orderly (as ++ [a]) ↔ Orderly as ∧ Acceptable as a := by
  constructor
  · intro h
    refine ⟨fun bs b hb => h bs b (hb.trans (List.prefix_append as [a])), ?_⟩
    exact h as a (List.prefix_refl _)
  · rintro ⟨h, ha⟩ bs b hb
    rcases List.prefix_concat_iff.mp hb with heq | hb
    · obtain ⟨hbs, hlast⟩ := List.append_inj' heq rfl
      rw [hbs, (List.singleton_inj.mp hlast)]
      exact ha
    · exact h bs b hb

/-! ## The message in progress -/

theorem received_fields (a : s.Frame) :
    (received a).sequence = a.seq ∧ (received a).numFrames = s.frames a.seq ∧
      (received a).reliable = false ∧ (received a).frameIndex = a.index := by
  have hf := messagePacket_frameOf (s.message a.seq) a.seq a.index_lt
  obtain ⟨-, -, hseq, -, -, hreliable⟩ := received_eq
    (messagePacket (s.message a.seq) a.seq (s.maxsize a.seq) a.index)
  exact ⟨hseq, hf.received_num, hreliable.trans (s.unreliable a.seq), hf.received_index⟩

theorem arrivalFrame_received (a : s.Frame) :
    (arrivalFrame (s.message a.seq) a.seq (s.maxsize a.seq) (false, a.index)).received =
      received a := rfl

theorem arrives (a : s.Frame) :
    Arrives (s.message a.seq) (s.maxsize a.seq) (false, a.index) :=
  ⟨a.index_lt, fun h => by cases h⟩

theorem numFrames_le {q : Nat} (h : s.frames q ≤ 256) :
    numFrames (s.size q) (s.maxsize q) ≤ 256 := by
  unfold frames wireFrames at h
  omega

/-- `current_msg_` is what has come in since its start. -/
structure InProgress (as : List s.Frame) (m : ReceivedMessage) : Prop where
  started : ∀ q, since q as ≠ [] →
    m.sequence = q ∧ Rebuilt (s.message q) (s.maxsize q) (since q as) m
  other : ∀ q : Nat, since q as = [] → m.sequence ≠ q

/-- It is complete exactly if all frames have come in. -/
theorem InProgress.complete_iff {as : List s.Frame} {m : ReceivedMessage} (h : InProgress as m)
    {q : Nat} (hm : m.sequence = q) : m.complete = true ↔ Completed q as := by
  have hsome : since q as ≠ [] := fun hnil => h.other q hnil hm
  obtain ⟨-, hr⟩ := h.started q hsome
  obtain ⟨c, hc⟩ := List.exists_mem_of_ne_nil _ hsome
  rw [hr.complete_iff]
  constructor
  · intro hall
    refine ⟨(mem_since hc).2.2, fun i hi => ?_⟩
    obtain ⟨d, hd, hindex⟩ := hall i hi
    have heq : d = (false, i) := Prod.ext (mem_since hd).1 hindex
    exact heq ▸ hd
  · exact fun hall i hi => ⟨(false, i), hall.2 i hi, rfl⟩

theorem addFrame_sequence {m m' : ReceivedMessage} {i : Int} {data : List UInt8}
    (h : m.addFrame i data = .ok m') : m'.sequence = m.sequence := by
  rw [ReceivedMessage.addFrame] at h
  split at h
  next =>
    split at h
    next => cases h; rfl
    next => cases h
  next => cases h

theorem addNewMessage_sequence {p : MessagePacket} {m : ReceivedMessage} {ok : Bool}
    (h : addNewMessage p = .ok (m, ok)) : m.sequence = p.sequence := by
  have hinit : ∀ (m' : ReceivedMessage) (ok' : Bool), ReceivedMessage.init
      { sequence := p.sequence } p.type p.tt p.numFrames p.totalSize = .ok (m', ok') →
        m'.sequence = p.sequence := by
    intro m' ok' hm'
    rw [ReceivedMessage.init] at hm'
    split at hm'
    next => cases hm'; rfl
    next =>
      split at hm'
      next => cases hm'
      next => cases hm'; rfl
  rw [addNewMessage] at h
  split at h
  next => cases h
  next m' hm' =>
    cases h
    exact hinit _ _ hm'
  next m' hm' =>
    split at h
    next m'' hadd =>
      cases h
      exact (addFrame_sequence hadd).trans (hinit _ _ hm')
    next => cases h

/-- The message after `init` and `add_frame`, as far as the two have not failed. -/
def nextMsg (m : ReceivedMessage) (p : MessagePacket) : Except Fault (ReceivedMessage × Bool) :=
  if m.sequence ≠ p.sequence then addNewMessage p
  else
    match m.addFrame p.frameIndex p.data with
    | .error e => .error e
    | .ok m => .ok (m, true)

/-- A frame of a message that is not too long is added to the message in progress. -/
theorem nextMsg_inProgress {as : List s.Frame} {m : ReceivedMessage} (h : InProgress as m)
    {a : s.Frame} (hmulti : 1 < s.frames a.seq) (hsmall : s.frames a.seq ≤ 256) :
    ∃ m', nextMsg m (received a) = .ok (m', true) ∧ m'.sequence = a.seq ∧
      InProgress (as ++ [a]) m' := by
  obtain ⟨hseq, hnum, hreliable, hindex⟩ := received_fields a
  have hn := numFrames_le hsmall
  have hrest : ∀ m' : ReceivedMessage, m'.sequence = a.seq →
      Rebuilt (s.message a.seq) (s.maxsize a.seq) (since a.seq as ++ [(false, a.index)]) m' →
      InProgress (as ++ [a]) m' := by
    intro m' hm' hr
    refine ⟨fun q hq => ?_, fun q hq => ?_⟩
    · rw [since_of_multi q as hmulti] at hq ⊢
      split at hq
      next heq =>
        rw [if_pos heq, ← heq]
        exact ⟨hm', hr⟩
      next => exact absurd rfl hq
    · rw [since_of_multi q as hmulti] at hq
      split at hq
      next => simp at hq
      next hne =>
        rw [hm']
        omega
  by_cases hnew : m.sequence ≠ (received a).sequence
  · have hnil : since a.seq as = [] := by
      by_contra hsome
      exact hnew ((h.started a.seq hsome).1.trans hseq.symm)
    obtain ⟨m', hm', hr⟩ := addNewMessage_rebuilt a.seq hn (arrives a)
    rw [arrivalFrame_received] at hm'
    have hsequence : m'.sequence = a.seq := (addNewMessage_sequence hm').trans hseq
    rw [nextMsg, if_pos hnew]
    refine ⟨m', hm', hsequence, hrest m' hsequence ?_⟩
    rw [hnil]
    exact hr
  · have heq : m.sequence = a.seq := by omega
    have hsome : since a.seq as ≠ [] := fun hnil => h.other a.seq hnil heq
    obtain ⟨-, hr⟩ := h.started a.seq hsome
    have hseen : ∀ c ∈ since a.seq as, Arrives (s.message a.seq) (s.maxsize a.seq) c := by
      intro c hc
      obtain ⟨h1, h2, -⟩ := mem_since hc
      exact ⟨h2, fun h => by rw [h1] at h; cases h⟩
    obtain ⟨m', hm', hr'⟩ := addLaterFrame_rebuilt a.seq hn hseen (arrives a) hr
    rw [arrivalFrame_received, addLaterFrame, s.unreliable, if_neg Bool.false_ne_true] at hm'
    have hsequence : m'.sequence = a.seq := (addFrame_sequence hm').trans heq
    rw [nextMsg, if_neg hnew, hm']
    exact ⟨m', rfl, hsequence, hrest m' hsequence hr'⟩

/-! ## One frame -/

theorem flags_of_unreliable (a : s.Frame) :
    hasBit (if (received a).reliable then kAooMessageReliable else 0) kAooMessageReliable =
      false := by
  rw [(received_fields a).2.2.1]
  decide

/-- A message of one frame is handed over. -/
theorem doHandle_single (peer : Peer) {a : s.Frame} (h : ¬ 1 < s.frames a.seq) (flags : Nat)
    (hflags : hasBit flags kAooMessageReliable = false) :
    doHandleClientMessage peer (received a) flags = .ok { peer with
      events := peer.events ++
        [peer.event (received a).tt (received a).type ((received a).data.map some) none] } := by
  have hnum := (received_fields a).2.1
  rw [doHandleClientMessage, if_neg (by rw [hflags]; decide), if_neg (by omega)]

/-- A frame of a longer one goes to `current_msg_`, which is handed over if it is complete
then. -/
theorem doHandle_multi (peer : Peer) {a : s.Frame} (h : 1 < s.frames a.seq) (flags : Nat)
    (hflags : hasBit flags kAooMessageReliable = false) {m : ReceivedMessage}
    (hm : nextMsg peer.currentMsg (received a) = .ok (m, true)) :
    doHandleClientMessage peer (received a) flags = .ok { peer with
      currentMsg := m
      events := peer.events ++
        if m.complete then [peer.event (received a).tt m.type (m.data.getD []) none] else [] } := by
  have hnum := (received_fields a).2.1
  rw [doHandleClientMessage, if_neg (by rw [hflags]; decide), if_pos (by omega)]
  rw [nextMsg] at hm
  split at hm
  next hnew =>
    rw [addNewMessage] at hm
    rw [if_pos hnew]
    split at hm
    next => cases hm
    next => cases hm
    next m' hinit =>
      rw [hinit]
      dsimp only
      split at hm
      next hadd =>
        cases hm
        rw [hadd]
      next => cases hm
  next hold =>
    rw [if_neg hold]
    dsimp only
    cases hadd : peer.currentMsg.addFrame (received a).frameIndex (received a).data with
    | error e =>
      rw [hadd] at hm
      cases hm
    | ok m' =>
      rw [hadd] at hm
      cases hm
      rfl

/-- The run has followed the frames. -/
structure Follows (as : List s.Frame) (r : UnreliableRun) : Prop where
  slot : InProgress as r.peer.currentMsg
  small : ∀ q, since q as ≠ [] → s.frames q ≤ 256
  received : ∀ q, since q as ≠ [] → ∀ i, i ∈ r.received ↔ (false, i) ∈ since q as
  delivered : ∀ q : Nat, (q : Int) ∈ r.deliveries.map Delivery.sequence ↔
    (s.frames q = 1 ∧ ∃ a ∈ as, a.seq = q) ∨ ∃ bs, bs <+: as ∧ Completed q bs
  whole : ∀ d ∈ r.deliveries, d.Whole

/-- A frame leads to a delivery. -/
def Delivers (as : List s.Frame) (a : s.Frame) : Prop :=
  s.frames a.seq = 1 ∨ Completed a.seq (as ++ [a])

/-- What a step adds to the record. -/
structure Adds (as : List s.Frame) (a : s.Frame) (r r' : UnreliableRun) : Prop where
  slot : InProgress (as ++ [a]) r'.peer.currentMsg
  received : ∀ q, since q (as ++ [a]) ≠ [] →
    ∀ i, i ∈ r'.received ↔ (false, i) ∈ since q (as ++ [a])
  delivery : Delivers as a →
    r'.deliveries = r.deliveries ++ [⟨a.seq, s.frames a.seq, r'.received⟩]
  silent : ¬ Delivers as a → r'.deliveries = r.deliveries
  late : r'.late = 0 ↔ r.late = 0 ∧ ¬ Completed a.seq as

theorem step_single {as : List s.Frame} {r : UnreliableRun} (h : Follows as r) {a : s.Frame}
    (hsingle : ¬ 1 < s.frames a.seq) : ∃ r', r.step (received a) = .ok r' ∧ Adds as a r r' := by
  obtain ⟨hseq, hnum, -, -⟩ := received_fields a
  have hpos := s.frames_pos a.seq
  have hmulti : ¬ (received a).numFrames > 1 := by omega
  rw [UnreliableRun.step, doHandle_single r.peer hsingle _ (flags_of_unreliable a)]
  refine ⟨_, rfl, ?_, ?_, ?_, ?_, ?_⟩
  · refine ⟨fun q hq => ?_, fun q hq => ?_⟩
    · rw [since_of_single q as hsingle] at hq ⊢
      exact h.slot.started q hq
    · rw [since_of_single q as hsingle] at hq
      exact h.slot.other q hq
  · intro q hq i
    rw [since_of_single q as hsingle] at hq ⊢
    rw [if_neg hmulti]
    exact h.received q hq i
  · intro _
    simp only [List.drop_left, List.map_cons, List.map_nil, hseq, hnum]
  · intro hnot
    exact absurd (Or.inl (by omega)) hnot
  · simp only [decide_eq_false hmulti, Bool.false_and, Bool.false_eq_true, if_false, Nat.add_zero]
    exact ⟨fun h0 => ⟨h0, fun hc => hsingle hc.1⟩, fun h0 => h0.1⟩

theorem step_multi {as : List s.Frame} {r : UnreliableRun} (h : Follows as r) {a : s.Frame}
    (hmulti : 1 < s.frames a.seq) (hsmall : s.frames a.seq ≤ 256) :
    ∃ r', r.step (received a) = .ok r' ∧ Adds as a r r' := by
  obtain ⟨hseq, hnum, -, hindex⟩ := received_fields a
  obtain ⟨m, hm, hmseq, hslot⟩ := nextMsg_inProgress h.slot hmulti hsmall
  have hmany : (received a).numFrames > 1 := by omega
  rw [UnreliableRun.step, doHandle_multi r.peer hmulti _ (flags_of_unreliable a) hm]
  have hcomplete := hslot.complete_iff hmseq
  have hdelivers : Delivers as a ↔ m.complete = true := by
    rw [hcomplete, Delivers]
    exact or_iff_right (by omega)
  refine ⟨_, rfl, hslot, ?_, ?_, ?_, ?_⟩
  · intro q hq i
    rw [since_of_multi q as hmulti] at hq ⊢
    split at hq
    next heq =>
      subst heq
      rw [if_pos rfl, if_pos hmany, hindex, Int.toNat_natCast, Finset.mem_insert, List.mem_append,
        List.mem_singleton, Prod.mk.injEq, eq_self, true_and, or_comm]
      refine or_congr_left ?_
      by_cases hnew : r.peer.currentMsg.sequence ≠ (received a).sequence
      · have hnil : since a.seq as = [] := by
          by_contra hsome
          exact hnew ((h.slot.started a.seq hsome).1.trans hseq.symm)
        rw [decide_eq_true hnew, if_pos rfl, hnil]
        exact iff_of_false (Finset.notMem_empty i) (List.not_mem_nil)
      · have hsome : since a.seq as ≠ [] :=
          fun hnil => h.slot.other a.seq hnil (by omega)
        rw [decide_eq_false hnew, if_neg Bool.false_ne_true]
        exact h.received a.seq hsome i
    next => exact absurd rfl hq
  · intro hd
    simp only [if_pos (hdelivers.mp hd), List.drop_left, List.map_cons, List.map_nil, hseq, hnum]
  · intro hnot
    simp only [if_neg (mt hdelivers.mpr hnot), List.append_nil, List.drop_length, List.map_nil]
  · by_cases hnew : r.peer.currentMsg.sequence ≠ (received a).sequence
    · have hnot : ¬ Completed a.seq as := by
        intro hc
        have hsome : since a.seq as ≠ [] := List.ne_nil_of_mem (hc.2 0 (s.frames_pos a.seq))
        exact hnew ((h.slot.started a.seq hsome).1.trans hseq.symm)
      simp only [decide_eq_true hnew, Bool.not_true, Bool.and_false, Bool.false_and,
        Bool.false_eq_true, if_false, Nat.add_zero]
      exact ⟨fun h0 => ⟨h0, hnot⟩, fun h0 => h0.1⟩
    · have hiff := h.slot.complete_iff (q := a.seq) (by omega)
      simp only [decide_eq_false hnew, decide_eq_true hmany, Bool.not_false, Bool.and_true,
        Bool.true_and, ← hiff]
      split
      next hcomp => exact ⟨fun h0 => by omega, fun h0 => absurd hcomp h0.2⟩
      next hcomp => exact ⟨fun h0 => ⟨h0, hcomp⟩, fun h0 => h0.1⟩

/-- A message that is too long for the bits of `current_msg_`. -/
theorem step_long {as : List s.Frame} {r : UnreliableRun} (h : Follows as r) {a : s.Frame}
    (hlong : 256 < s.frames a.seq) : r.step (received a) = .error .frame := by
  obtain ⟨hseq, hnum, -, -⟩ := received_fields a
  have hnew : r.peer.currentMsg.sequence ≠ (received a).sequence := by
    intro heq
    have hsome : since a.seq as ≠ [] := fun hnil => h.slot.other a.seq hnil (by omega)
    have := h.small a.seq hsome
    omega
  have hf := messagePacket_frameOf (s.message a.seq) a.seq a.index_lt
  have htotal : 0 ≤ (received a).totalSize := by
    rw [received, (received_eq _).2.2.2.1, hf.total]
    omega
  rw [UnreliableRun.step, doHandleClientMessage,
    if_neg (by rw [flags_of_unreliable a]; decide), if_pos (by omega), if_pos hnew,
    ReceivedMessage.init_of_gt _ _ _ htotal (by omega)]

/-- One more frame: the prefixes that complete a message. -/
theorem completed_append {as : List s.Frame} {a : s.Frame} (q : Nat) :
    (∃ bs, bs <+: as ++ [a] ∧ Completed q bs) ↔
      (∃ bs, bs <+: as ∧ Completed q bs) ∨ (a.seq = q ∧ Completed a.seq (as ++ [a])) := by
  constructor
  · rintro ⟨bs, hbs, hc⟩
    rcases List.prefix_concat_iff.mp hbs with rfl | hbs
    · by_cases hmulti : 1 < s.frames a.seq
      · by_cases heq : a.seq = q
        · subst heq
          exact Or.inr ⟨rfl, hc⟩
        · have hmem := hc.2 0 (s.frames_pos q)
          rw [since_of_multi q as hmulti, if_neg heq] at hmem
          cases hmem
      · refine Or.inl ⟨as, List.prefix_refl as, hc.1, fun i hi => ?_⟩
        rw [← since_of_single q as hmulti]
        exact hc.2 i hi
    · exact Or.inl ⟨bs, hbs, hc⟩
  · rintro (⟨bs, hbs, hc⟩ | ⟨rfl, hc⟩)
    · exact ⟨bs, hbs.trans (List.prefix_append as [a]), hc⟩
    · exact ⟨_, List.prefix_refl _, hc⟩

/-- A step keeps up with the frames, and is good if the frame is acceptable. -/
theorem Adds.follows {as : List s.Frame} {a : s.Frame} {r r' : UnreliableRun} (h : Follows as r)
    (hsmall : s.frames a.seq ≤ 256) (hadds : Adds as a r r') :
    Follows (as ++ [a]) r' ∧ (r'.Good ↔ r.Good ∧ Acceptable as a) := by
  have hpos := s.frames_pos a.seq
  have hwhole : ∀ d ∈ r'.deliveries, d.Whole := by
    by_cases hd : Delivers as a
    · rw [hadds.delivery hd]
      intro d hmem
      rcases List.mem_append.mp hmem with hmem | hmem
      · exact h.whole d hmem
      · rw [List.mem_singleton.mp hmem]
        intro hmany i hi
        dsimp only at hmany hi ⊢
        have hc : Completed a.seq (as ++ [a]) := hd.resolve_left (by omega)
        have hall := hc.2 i (by omega)
        exact (hadds.received a.seq (List.ne_nil_of_mem hall) i).mpr hall
    · rw [hadds.silent hd]
      exact h.whole
  -- when the message of this frame has not been delivered before
  have hfresh : (a.seq : Int) ∉ r.deliveries.map Delivery.sequence ↔
      (s.frames a.seq = 1 → ∀ b ∈ as, b.seq ≠ a.seq) ∧
        ∀ bs, bs <+: as → ¬ Completed a.seq bs := by
    rw [h.delivered, not_or]
    push Not
    rfl
  refine ⟨⟨hadds.slot, ?_, hadds.received, fun q => ?_, hwhole⟩, ?_⟩
  · intro q hq
    -- only messages with several frames are put together
    by_cases hmulti : 1 < s.frames a.seq
    · rw [since_of_multi q as hmulti] at hq
      split at hq
      next heq =>
        rw [← heq]
        exact hsmall
      next => exact absurd rfl hq
    · rw [since_of_single q as hmulti] at hq
      exact h.small q hq
  · have hmem : (∃ b ∈ as ++ [a], b.seq = q) ↔ (∃ b ∈ as, b.seq = q) ∨ a.seq = q := by
      simp only [List.mem_append, List.mem_singleton, or_and_right, exists_or, exists_eq_left]
    rw [completed_append, hmem]
    by_cases hd : Delivers as a
    · rw [hadds.delivery hd, List.map_append, List.mem_append, h.delivered]
      simp only [List.map_cons, List.map_nil, List.mem_singleton, Nat.cast_inj]
      constructor
      · rintro ((⟨h1, h2⟩ | h2) | rfl)
        · exact Or.inl ⟨h1, Or.inl h2⟩
        · exact Or.inr (Or.inl h2)
        · rcases hd with h1 | h2
          · exact Or.inl ⟨h1, Or.inr rfl⟩
          · exact Or.inr (Or.inr ⟨rfl, h2⟩)
      · rintro (⟨h1, h2 | rfl⟩ | h2 | ⟨rfl, -⟩)
        · exact Or.inl (Or.inl ⟨h1, h2⟩)
        · exact Or.inr rfl
        · exact Or.inl (Or.inr h2)
        · exact Or.inr rfl
    · rw [hadds.silent hd, h.delivered]
      refine or_congr (and_congr_right fun h1 => ?_) ?_
      · refine (or_iff_left fun heq => hd (Or.inl ?_)).symm
        rw [heq]
        exact h1
      · exact (or_iff_left fun hc => hd (Or.inr hc.2)).symm
  · by_cases hd : Delivers as a
    · have honce : (r'.deliveries.map Delivery.sequence).Nodup ↔
          (r.deliveries.map Delivery.sequence).Nodup ∧
            (a.seq : Int) ∉ r.deliveries.map Delivery.sequence := by
        rw [hadds.delivery hd, List.map_append, List.map_singleton, ← List.concat_eq_append,
          List.nodup_concat, and_comm]
      constructor
      · intro hgood
        obtain ⟨h1, h2⟩ := honce.mp hgood.once
        obtain ⟨h3, h4⟩ := hfresh.mp h2
        exact ⟨⟨h1, h.whole, (hadds.late.mp hgood.late).1⟩, hsmall, h3, fun _ => h4⟩
      · rintro ⟨hgood, hacc⟩
        have hnot : ∀ bs, bs <+: as → ¬ Completed a.seq bs := by
          rcases hd with h1 | h2
          · exact fun bs _ hc => by have := hc.1; omega
          · exact hacc.once h2
        exact ⟨honce.mpr ⟨hgood.once, hfresh.mpr ⟨hacc.single, hnot⟩⟩, hwhole,
          hadds.late.mpr ⟨hgood.late, hnot as (List.prefix_refl as)⟩⟩
    · have hnot : ¬ Completed a.seq as := fun hc => hd (Or.inr hc.append)
      constructor
      · intro hgood
        refine ⟨⟨?_, h.whole, (hadds.late.mp hgood.late).1⟩, hsmall,
          fun h1 => absurd (Or.inl h1) hd, fun hc => absurd (Or.inr hc) hd⟩
        rw [← hadds.silent hd]
        exact hgood.once
      · rintro ⟨hgood, -⟩
        refine ⟨?_, hwhole, hadds.late.mpr ⟨hgood.late, hnot⟩⟩
        rw [hadds.silent hd]
        exact hgood.once

/-! ## Every run -/

/-- The receiver before the first frame. -/
def start (groupId userId localId : Int) : UnreliableRun :=
  { peer := Peer.new groupId userId localId }

theorem follows_start (groupId userId localId : Int) :
    Follows ([] : List s.Frame) (start groupId userId localId) := by
  refine ⟨⟨fun q hq => absurd rfl hq, fun q _ => ?_⟩, fun q hq => absurd rfl hq,
    fun q hq => absurd rfl hq, fun q => ?_, fun d hd => ?_⟩
  · show kAooIdInvalid ≠ (q : Int)
    rw [kAooIdInvalid]
    omega
  · refine iff_of_false List.not_mem_nil ?_
    rintro (⟨-, b, hb, -⟩ | ⟨bs, hbs, hc⟩)
    · cases hb
    · have hmem := hc.2 0 (s.frames_pos q)
      rw [List.prefix_nil.mp hbs] at hmem
      cases hmem
  · cases hd

/-- A run follows the frames, unless a message is too long. -/
theorem run_follows (groupId userId localId : Int) (as : List s.Frame) :
    (∃ r, run UnreliableRun.step (start groupId userId localId) (as.map received) = .ok r ∧
      Follows as r ∧ (r.Good ↔ Orderly as)) ∨
    ((∃ e, run UnreliableRun.step (start groupId userId localId) (as.map received) = .error e) ∧
      ¬ Orderly as) := by
  induction as using List.reverseRecOn with
  | nil =>
    refine Or.inl ⟨_, rfl, follows_start groupId userId localId, iff_of_true ?_ orderly_nil⟩
    exact ⟨List.nodup_nil, fun d hd => absurd hd List.not_mem_nil, rfl⟩
  | append_singleton as a ih =>
    rw [List.map_append, List.map_singleton, orderly_append]
    rcases ih with ⟨r, hr, hfollows, hgood⟩ | ⟨⟨e, he⟩, hbad⟩
    · rw [run_append _ hr]
      by_cases hsmall : s.frames a.seq ≤ 256
      · obtain ⟨r', hr', hadds⟩ : ∃ r', r.step (received a) = .ok r' ∧ Adds as a r r' := by
          by_cases hmulti : 1 < s.frames a.seq
          · exact step_multi hfollows hmulti hsmall
          · exact step_single hfollows hmulti
        obtain ⟨hfollows', hgood'⟩ := hadds.follows hfollows hsmall
        refine Or.inl ⟨r', ?_, hfollows', hgood'.trans (and_congr_left fun _ => hgood)⟩
        rw [run, hr']
        rfl
      · refine Or.inr ⟨⟨.frame, ?_⟩, fun h => hsmall h.2.small⟩
        rw [run, step_long hfollows (by omega)]
    · exact Or.inr ⟨⟨e, run_error_append _ he⟩, fun h => hbad h.1⟩

/-- What the parsers let through. -/
theorem filterMap_packet (as : List s.Frame) :
    as.filterMap packet = (as.filter accepted).map received := by
  induction as with
  | nil => rfl
  | cons a as ih =>
    have hms : 0 < s.maxsize a.seq ∧ s.maxsize a.seq ≤ 4096 :=
      ⟨maxsize_pos (s.packetSize a.seq) (s.binary a.seq),
        maxsize_le (s.packetSize a.seq) (s.binary a.seq)⟩
    have hpacket : packet a = if accepted a then some (received a) else none :=
      arrivalPacket_eq hms (s.size_lt a.seq) a.seq_lt (arrives a) (s.binary a.seq)
    rw [List.filterMap_cons, List.filter_cons, hpacket, ih]
    split_ifs with haccepted
    · rfl
    · rfl

/-- **At most once, and only whole**: in every order of the frames, with losses and
duplicates, this holds exactly if nothing is completed for a second time by the frames that
the parser accepts. -/
theorem delivered_once_iff (s : UnreliableMessages) (groupId userId localId : Int)
    (as : List s.Frame) :
    (∃ r, run UnreliableRun.step (start groupId userId localId) (as.filterMap packet) = .ok r ∧
      r.Good) ↔ Orderly (as.filter accepted) := by
  rw [filterMap_packet]
  rcases run_follows groupId userId localId (as.filter accepted) with
    ⟨r, hr, -, hgood⟩ | ⟨⟨e, he⟩, hbad⟩
  · rw [← hgood]
    constructor
    · rintro ⟨r', hr', h⟩
      rw [hr] at hr'
      cases hr'
      exact h
    · exact fun h => ⟨r, hr, h⟩
  · refine iff_of_false ?_ hbad
    rintro ⟨r, hr, -⟩
    rw [he] at hr
    cases hr

/-- A message of several frames is handed over with all of them, in every run. -/
theorem whole_of_run (groupId userId localId : Int) (as : List s.Frame) {r : UnreliableRun}
    (h : run UnreliableRun.step (start groupId userId localId) (as.filterMap packet) = .ok r) :
    ∀ d ∈ r.deliveries, d.Whole := by
  rw [filterMap_packet] at h
  rcases run_follows groupId userId localId (as.filter accepted) with
    ⟨r', hr', hfollows, -⟩ | ⟨⟨e, he⟩, -⟩
  · rw [hr'] at h
    cases h
    exact hfollows.whole
  · rw [he] at h
    cases h

/-- A message of two frames, and a duplicate of the second one: it is handed over twice, and
`add_frame` is called on a complete message. -/
theorem last_frame_twice :
    let s : UnreliableMessages :=
      ⟨fun _ => { tt := 0, data := { type := 0, data := List.replicate 150 1 }, reliable := false },
        fun _ => ⟨150, by decide, by decide⟩, fun _ => true, fun _ => rfl,
        fun _ => by rw [List.length_replicate]; decide⟩
    let first : s.Frame := ⟨0, 0, by decide, by decide +kernel⟩
    let last : s.Frame := ⟨0, 1, by decide, by decide +kernel⟩
    (∃ r, run UnreliableRun.step (start 1 2 3) ([first, last, last].filterMap packet) = .ok r ∧
      r.deliveries.map Delivery.sequence = [0, 0] ∧ r.late = 1) ∧
    ¬ ∃ r, run UnreliableRun.step (start 1 2 3) ([first, last, last].filterMap packet) = .ok r ∧
      r.Good := by
  intro s first last
  obtain ⟨r, hr, hdeliveries, hlate⟩ : ∃ r,
      run UnreliableRun.step (start 1 2 3) ([first, last, last].filterMap packet) = .ok r ∧
        r.deliveries.map Delivery.sequence = [0, 0] ∧ r.late = 1 := by
    have heval : (run UnreliableRun.step (start 1 2 3)
        ([first, last, last].filterMap packet)).toOption.map
          (fun r => (r.deliveries.map Delivery.sequence, r.late)) = some ([0, 0], 1) := by
      decide +kernel
    cases hr : run UnreliableRun.step (start 1 2 3) ([first, last, last].filterMap packet) with
    | error e =>
      rw [hr] at heval
      cases heval
    | ok r =>
      rw [hr] at heval
      injection heval with heval
      injection heval with h1 h2
      exact ⟨r, rfl, h1, h2⟩
  refine ⟨⟨r, hr, hdeliveries, hlate⟩, ?_⟩
  rintro ⟨r', hr', hgood⟩
  rw [hr] at hr'
  cases hr'
  have := hgood.late
  omega

end UnreliableMessages

end Aoo.Net
