import Aoo.Lib.Bytes
import Aoo.Lib.Run

/-!
# Messages in a byte stream

TCP knows no messages: every OSC packet is sent with its size in front, and
`osc_stream_receiver` finds the packets in the pieces in which the stream arrives. A piece
may end anywhere, also inside of a size.

`handleMessage` is the loop of the code, which takes as many bytes at a time as it can use.
`stepByte` takes one byte. The two agree (`handleMessage_eq_run`), and a run of `stepByte` does
not depend on how the bytes are cut (`run_flatten`). What the receiver finds is
`deframe`, which says nothing about pieces: the packets at the front of the bytes, and a rest that
does not begin with a packet.

**Main result** (`chunks_deframe`): for all pieces, the receiver delivers the packets of
`deframe`, and keeps or refuses its rest.
-/

namespace Aoo.Net

open Lib

/-- `osc_stream_receiver` -/
structure OscStreamReceiver where
  buffer : List UInt8 := []
  messageSize : Int := 0
  deriving DecidableEq, Repr

/-- `osc_stream_receiver::reset` -/
def OscStreamReceiver.reset (r : OscStreamReceiver) : OscStreamReceiver :=
  { r with buffer := [], messageSize := 0 }

/-- The exceptions that leave `handle_message`: its own, and those of the handler. -/
inductive StreamException (ε : Type)
  | malformedPacket (what : String)
  | malformedMessage (what : String)
  | handler (e : ε)
  deriving DecidableEq, Repr

/-- The receiver, what the handler works on, and the number of bytes read so far. -/
structure Stream (τ : Type) where
  receiver : OscStreamReceiver := {}
  state : τ
  offset : Nat := 0
  deriving DecidableEq, Repr

/-- An exception, and how it leaves the stream. -/
structure StreamFailure (τ ε : Type) where
  stream : Stream τ
  exception : StreamException ε
  deriving DecidableEq, Repr

variable {τ ε : Type}

namespace Stream

/-- `buffer_.insert`, with `ptr` moved over the bytes. -/
def insert (s : Stream τ) (bytes : List UInt8) : Stream τ :=
  { s with
    receiver := { s.receiver with buffer := s.receiver.buffer ++ bytes }
    offset := s.offset + bytes.length }

/-- `reset` -/
def reset (s : Stream τ) : Stream τ :=
  { s with receiver := s.receiver.reset }

/-- `message_size_ = msgsize` -/
def setMessageSize (s : Stream τ) (msgsize : Int) : Stream τ :=
  { s with receiver := { s.receiver with messageSize := msgsize } }

/-- `from_bytes<int32_t>` -/
def fromBytesInt32 (bytes : List UInt8) : Int := signed 4294967296 (fromBytes bytes)

/-- OSC packets are not empty, and their size is a multiple of four. -/
def BadSize (msgsize : Int) : Prop := msgsize ≤ 0 ∨ msgsize % 4 ≠ 0

instance (msgsize : Int) : Decidable (BadSize msgsize) :=
  inferInstanceAs (Decidable (_ ∨ _))

/-- What `handle_message` does if the buffer may have become a whole message size. -/
def gotSize (s : Stream τ) : Except (StreamFailure τ ε) (Stream τ) :=
  if s.receiver.buffer.length = 4 then
    let msgsize := fromBytesInt32 s.receiver.buffer
    if BadSize msgsize then
      .error ⟨s.reset, .malformedPacket "bad OSC packet size"⟩
    else
      .ok (s.setMessageSize msgsize)
  else
    .ok s

/-- What `handle_message` does with a complete message. The handler may throw, and then the
buffer stays as it is. -/
def gotMessage (handler : τ → List UInt8 → τ × Option ε) (s : Stream τ) :
    Except (StreamFailure τ ε) (Stream τ) :=
  match handler s.state (s.receiver.buffer.drop 4) with
  | (t, some e) => .error ⟨{ s with state := t }, .handler e⟩
  | (t, none) => .ok (Stream.reset { s with state := t })

/-- One turn of the loop of `handle_message`, with the data that remains after it. -/
def turn (handler : τ → List UInt8 → τ × Option ε) (s : Stream τ) (data : List UInt8) :
    Except (StreamFailure τ ε) (Stream τ × List UInt8) :=
  if s.receiver.buffer.length < 4 then
    -- message size in progress
    let bytesMissing := 4 - s.receiver.buffer.length
    let count := min bytesMissing data.length
    match (s.insert (data.take count)).gotSize with
    | .ok s' => .ok (s', data.drop count)
    | .error e => .error e
  else
    -- message data in progress
    let bytesReceived : Int := s.receiver.buffer.length - 4
    let bytesMissing := s.receiver.messageSize - bytesReceived
    if bytesReceived = 0 ∧ data.head? ≠ some 47 then
      .error ⟨s.reset, .malformedMessage "not an OSC message"⟩
    else
      let count := (min bytesMissing data.length).toNat
      let s' := s.insert (data.take count)
      if bytesMissing = count then
        match s'.gotMessage handler with
        | .ok s'' => .ok (s'', data.drop count)
        | .error e => .error e
      else
        .ok (s', data.drop count)

/-- The loop of `handle_message`, which ends when no data remains. `none` means that it has not
ended after so many turns. -/
def loop (handler : τ → List UInt8 → τ × Option ε) :
    Nat → Stream τ → List UInt8 → Option (Except (StreamFailure τ ε) (Stream τ))
  | _, s, [] => some (.ok s)
  | 0, _, _ :: _ => none
  | fuel + 1, s, b :: bs =>
    match s.turn handler (b :: bs) with
    | .ok (s', rest) => loop handler fuel s' rest
    | .error e => some (.error e)

/-- `osc_stream_receiver::handle_message` -/
def handleMessage (handler : τ → List UInt8 → τ × Option ε) (s : Stream τ) (data : List UInt8) :
    Option (Except (StreamFailure τ ε) (Stream τ)) :=
  loop handler (data.length + 1) s data

/-- `handle_message` is called with one piece of the stream after the other, until it throws. -/
def feed (handler : τ → List UInt8 → τ × Option ε) :
    Stream τ → List (List UInt8) → Option (Except (StreamFailure τ ε) (Stream τ))
  | s, [] => some (.ok s)
  | s, data :: chunks =>
    match s.handleMessage handler data with
    | some (.ok s') => feed handler s' chunks
    | r => r

/-! ## One byte at a time -/

/-- The receiver takes one byte. -/
def stepByte (handler : τ → List UInt8 → τ × Option ε) (s : Stream τ) (b : UInt8) :
    Except (StreamFailure τ ε) (Stream τ) :=
  if s.receiver.buffer.length < 4 then
    (s.insert [b]).gotSize
  else if s.receiver.buffer.length = 4 ∧ b ≠ 47 then
    .error ⟨s.reset, .malformedMessage "not an OSC message"⟩
  else if (s.receiver.buffer.length : Int) + 1 = s.receiver.messageSize + 4 then
    (s.insert [b]).gotMessage handler
  else
    .ok (s.insert [b])

/-- The receiver waits for data: for some of a size, or for some of a message. -/
def Waits (s : Stream τ) : Prop :=
  s.receiver.buffer.length < 4 ∨ (s.receiver.buffer.length : Int) < s.receiver.messageSize + 4

@[simp] theorem insert_buffer (s : Stream τ) (bs : List UInt8) :
    (s.insert bs).receiver.buffer = s.receiver.buffer ++ bs := rfl

@[simp] theorem insert_messageSize (s : Stream τ) (bs : List UInt8) :
    (s.insert bs).receiver.messageSize = s.receiver.messageSize := rfl

@[simp] theorem insert_state (s : Stream τ) (bs : List UInt8) :
    (s.insert bs).state = s.state := rfl

@[simp] theorem insert_offset (s : Stream τ) (bs : List UInt8) :
    (s.insert bs).offset = s.offset + bs.length := rfl

@[simp] theorem insert_nil (s : Stream τ) : s.insert [] = s := by
  simp [insert]

/-- Bytes can be inserted one by one. -/
theorem insert_insert (s : Stream τ) (as bs : List UInt8) :
    (s.insert as).insert bs = s.insert (as ++ bs) := by
  simp [insert, Nat.add_assoc]

@[simp] theorem setMessageSize_messageSize (s : Stream τ) (n : Int) :
    (s.setMessageSize n).receiver.messageSize = n := rfl

@[simp] theorem setMessageSize_buffer (s : Stream τ) (n : Int) :
    (s.setMessageSize n).receiver.buffer = s.receiver.buffer := rfl

@[simp] theorem setMessageSize_offset (s : Stream τ) (n : Int) :
    (s.setMessageSize n).offset = s.offset := rfl

@[simp] theorem reset_buffer (s : Stream τ) : s.reset.receiver.buffer = [] := rfl

/-- The size is looked at when four bytes are there. -/
theorem gotSize_of_ne {s : Stream τ} (h : s.receiver.buffer.length ≠ 4) :
    s.gotSize = (.ok s : Except (StreamFailure τ ε) (Stream τ)) := by
  rw [gotSize, if_neg h]

/-- Four bytes are a size, and a bad one ends the stream. -/
theorem gotSize_of_eq {s : Stream τ} (h : s.receiver.buffer.length = 4) :
    s.gotSize = (if BadSize (fromBytesInt32 s.receiver.buffer) then
        .error ⟨s.reset, .malformedPacket "bad OSC packet size"⟩
      else .ok (s.setMessageSize (fromBytesInt32 s.receiver.buffer)) :
      Except (StreamFailure τ ε) (Stream τ)) := by
  rw [gotSize, if_pos h]

/-- A size that is accepted leaves the receiver waiting for the message. -/
theorem gotSize_waits {s s' : Stream τ} (hlen : s.receiver.buffer.length ≤ 4)
    (h : s.gotSize = (.ok s' : Except (StreamFailure τ ε) (Stream τ))) : s'.Waits := by
  by_cases hfour : s.receiver.buffer.length = 4
  · rw [gotSize_of_eq hfour] at h
    split at h
    · cases h
    next hgood =>
      obtain rfl := Except.ok.inj h
      have hpos := Int.not_le.mp fun hle => hgood (Or.inl hle)
      right
      rw [setMessageSize_messageSize, setMessageSize_buffer]
      omega
  · rw [gotSize_of_ne hfour] at h
    obtain rfl := Except.ok.inj h
    left
    omega

/-- After a message the receiver waits for the next size. -/
theorem gotMessage_waits {handler : τ → List UInt8 → τ × Option ε} {s s' : Stream τ}
    (h : s.gotMessage handler = .ok s') : s'.Waits := by
  rw [gotMessage] at h
  split at h
  · cases h
  · obtain rfl := Except.ok.inj h
    left
    show 0 < 4
    omega

/-- A new receiver waits for a size. -/
theorem waits_new (t : τ) (k : Nat) : (⟨{}, t, k⟩ : Stream τ).Waits :=
  Or.inl (Nat.zero_lt_succ 3)

/-- A receiver that waits takes a byte and waits again. -/
theorem stepByte_waits {handler : τ → List UInt8 → τ × Option ε} {s s' : Stream τ} {b : UInt8}
    (hw : s.Waits) (h : s.stepByte handler b = .ok s') : s'.Waits := by
  rw [stepByte] at h
  split at h
  next hlt =>
    refine gotSize_waits ?_ h
    simp
    omega
  next hge =>
    split at h
    · cases h
    · split at h
      · exact gotMessage_waits h
      next hne =>
        obtain rfl := Except.ok.inj h
        right
        rcases hw with hw | hw
        · omega
        · simp
          omega

/-- Bytes that do not complete a size are only kept. -/
theorem run_size {handler : τ → List UInt8 → τ × Option ε} :
    ∀ (bs : List UInt8) {s : Stream τ}, s.receiver.buffer.length + bs.length < 4 →
      Lib.run (stepByte handler) s bs = .ok (s.insert bs) := by
  intro bs
  induction bs with
  | nil =>
    intro s _
    rw [run_nil, insert_nil]
  | cons b bs ih =>
    intro s h
    rw [List.length_cons] at h
    have hstep : s.stepByte handler b = .ok (s.insert [b]) := by
      rw [stepByte, if_pos (by omega), gotSize_of_ne]
      simp
      omega
    rw [run, hstep]
    show Lib.run _ (s.insert [b]) bs = _
    rw [ih (by simp; omega), insert_insert]
    rfl

/-- Bytes that do not complete a message are only kept, if the message begins with a slash. -/
theorem run_data {handler : τ → List UInt8 → τ × Option ε} :
    ∀ (bs : List UInt8) {s : Stream τ}, 4 ≤ s.receiver.buffer.length →
      (s.receiver.buffer.length : Int) + bs.length < s.receiver.messageSize + 4 →
      (s.receiver.buffer.length = 4 → ∀ b ∈ bs.head?, b = 47) →
      Lib.run (stepByte handler) s bs = .ok (s.insert bs) := by
  intro bs
  induction bs with
  | nil =>
    intro s _ _ _
    rw [run_nil, insert_nil]
  | cons b bs ih =>
    intro s hlen h hslash
    rw [List.length_cons] at h
    have hstep : s.stepByte handler b = .ok (s.insert [b]) := by
      rw [stepByte, if_neg (by omega), if_neg, if_neg (by omega)]
      intro hb
      exact hb.2 (hslash hb.1 b rfl)
    rw [run, hstep]
    show Lib.run _ (s.insert [b]) bs = _
    rw [ih (by simp; omega) (by simp; omega), insert_insert]
    · rfl
    -- the buffer has grown, so the next byte is not the first of its message
    · intro hfour
      simp at hfour
      omega

/-! ## The loop takes the same bytes -/

/-- A run over the bytes of a size or a message without the last one, then the last one. -/
theorem run_last {handler : τ → List UInt8 → τ × Option ε} {s : Stream τ} {data : List UInt8}
    {k : Nat} (hk : k < data.length)
    (h : Lib.run (stepByte handler) s (data.take k) = .ok (s.insert (data.take k))) :
    Lib.run (stepByte handler) s (data.take (k + 1)) =
      (s.insert (data.take k)).stepByte handler data[k] := by
  rw [List.take_succ_eq_append_getElem hk, run_append _ h, run]
  split
  · next s' hs => rw [hs, run_nil]
  · next e he => rw [he]

/-- The part of a turn that takes the size of a message. -/
theorem run_take_size (handler : τ → List UInt8 → τ × Option ε) (s : Stream τ)
    (data : List UInt8) (hlt : s.receiver.buffer.length < 4) :
    Lib.run (stepByte handler) s (data.take (min (4 - s.receiver.buffer.length) data.length)) =
      (s.insert (data.take (min (4 - s.receiver.buffer.length) data.length))).gotSize := by
  by_cases hall : data.length < 4 - s.receiver.buffer.length
  · have hmin : min (4 - s.receiver.buffer.length) data.length = data.length := by omega
    rw [hmin, List.take_length, run_size data (by omega), gotSize_of_ne]
    simp
    omega
  · obtain ⟨k, hk⟩ : ∃ k, 4 - s.receiver.buffer.length = k + 1 :=
      ⟨3 - s.receiver.buffer.length, by omega⟩
    have hmin : min (4 - s.receiver.buffer.length) data.length = k + 1 := by omega
    have hkd : k < data.length := by omega
    rw [hmin, run_last hkd (run_size _ (by simp; omega)), stepByte, if_pos (by simp; omega),
      insert_insert, List.take_succ_eq_append_getElem hkd]

/-- The part of a turn that takes data of a message which begins with a slash. -/
theorem run_take_data (handler : τ → List UInt8 → τ × Option ε) (s : Stream τ)
    (data : List UInt8) (missing : Nat) (hge : 4 ≤ s.receiver.buffer.length)
    (hmissing : (s.receiver.buffer.length : Int) + missing = s.receiver.messageSize + 4)
    (hpos : 0 < missing) (hslash : s.receiver.buffer.length = 4 → data.head? = some 47) :
    Lib.run (stepByte handler) s (data.take (min missing data.length)) =
      if missing = min missing data.length then
        (s.insert (data.take (min missing data.length))).gotMessage handler
      else .ok (s.insert (data.take (min missing data.length))) := by
  have hhead : ∀ k, s.receiver.buffer.length = 4 → ∀ b ∈ (data.take k).head?, b = 47 := by
    intro k hfour b hb
    cases k with
    | zero => simp at hb
    | succ k =>
      rw [List.head?_take, if_neg (by omega), hslash hfour] at hb
      exact (Option.some.inj hb).symm
  by_cases hall : data.length < missing
  · have hmin : min missing data.length = data.length := by omega
    rw [hmin, if_neg (by omega), List.take_length]
    refine run_data data hge (by omega) ?_
    have := hhead data.length
    rwa [List.take_length] at this
  · obtain ⟨k, rfl⟩ : ∃ k, missing = k + 1 := ⟨missing - 1, by omega⟩
    have hmin : min (k + 1) data.length = k + 1 := by omega
    have hkd : k < data.length := by omega
    rw [hmin, if_pos rfl, run_last hkd (run_data _ hge (by simp; omega) (hhead k)), stepByte,
      if_neg (by simp; omega), if_neg, if_pos (by simp; omega), insert_insert,
      List.take_succ_eq_append_getElem hkd]
    -- the last byte of a message is its first one only if nothing is between them
    rintro ⟨hfour, hne⟩
    simp at hfour
    have hk : k = 0 := by omega
    subst hk
    refine hne (hhead 1 (by omega) _ ?_)
    simp [List.head?_eq_getElem?]

/-- A turn takes one byte or more, and does with them what `stepByte` does. -/
theorem turn_eq_run (handler : τ → List UInt8 → τ × Option ε) {s : Stream τ} {data : List UInt8}
    (hw : s.Waits) (hdata : data ≠ []) :
    ∃ k, 0 < k ∧ s.turn handler data =
      match Lib.run (stepByte handler) s (data.take k) with
      | .ok s' => .ok (s', data.drop k)
      | .error e => .error e := by
  have hlen : 0 < data.length := List.length_pos_iff.mpr hdata
  rw [turn]
  split
  next hlt =>
    refine ⟨min (4 - s.receiver.buffer.length) data.length, by omega, ?_⟩
    rw [run_take_size handler s data hlt]
  next hge =>
    have hpos : (s.receiver.buffer.length : Int) < s.receiver.messageSize + 4 := by
      rcases hw with hw | hw
      · exact absurd hw hge
      · exact hw
    obtain ⟨missing, hmissing⟩ : ∃ missing : Nat,
        s.receiver.messageSize - ((s.receiver.buffer.length : Int) - 4) = missing :=
      ⟨(s.receiver.messageSize - ((s.receiver.buffer.length : Int) - 4)).toNat, by omega⟩
    dsimp only
    rw [hmissing]
    split
    next hbad =>
      refine ⟨1, by omega, ?_⟩
      cases data with
      | nil => exact absurd rfl hdata
      | cons b bs =>
        have hb : b ≠ 47 := by
          intro hb
          exact hbad.2 (by rw [hb]; rfl)
        rw [List.take_succ_cons, List.take_zero, run, stepByte, if_neg hge,
          if_pos ⟨by omega, hb⟩]
    next hgood =>
      have hcount : (min (missing : Int) (data.length : Int)).toNat = min missing data.length := by
        omega
      refine ⟨min missing data.length, by omega, ?_⟩
      rw [hcount, run_take_data handler s data missing (by omega) (by omega)
        (by omega)]
      · by_cases hmin : missing = min missing data.length
        · rw [if_pos (by omega), if_pos hmin]
        · rw [if_neg (by omega), if_neg hmin]
      · intro hfour
        by_contra hne
        exact hgood ⟨by omega, hne⟩

/-- Between two calls it waits, for a size or for the rest of a message. -/
theorem run_waits {handler : τ → List UInt8 → τ × Option ε} {s s' : Stream τ}
    {bs : List UInt8} (hw : s.Waits) (h : Lib.run (stepByte handler) s bs = .ok s') : s'.Waits :=
  run_invariant (P := fun _ => True) (fun _ _ _ _ hI hs => stepByte_waits hI hs)
    (fun _ _ => trivial) hw h

/-- The loop over chunks of the source does the same as a loop over the bytes. -/
theorem loop_eq_run {handler : τ → List UInt8 → τ × Option ε} :
    ∀ (fuel : Nat) {s : Stream τ} {data : List UInt8}, data.length ≤ fuel → s.Waits →
      loop handler fuel s data = some (Lib.run (stepByte handler) s data) := by
  intro fuel
  induction fuel with
  | zero =>
    intro s data hlen hw
    obtain rfl := List.eq_nil_of_length_eq_zero (Nat.le_zero.mp hlen)
    rfl
  | succ fuel ih =>
    intro s data hlen hw
    cases data with
    | nil => rfl
    | cons b bs =>
      obtain ⟨k, hk, hturn⟩ := turn_eq_run handler hw (List.cons_ne_nil b bs)
      rw [loop, hturn]
      have hcut := List.take_append_drop k (b :: bs)
      cases hrun : Lib.run (stepByte handler) s ((b :: bs).take k) with
      | ok s' =>
        have hrest : ((b :: bs).drop k).length ≤ fuel := by
          rw [List.length_drop]
          omega
        show loop handler fuel s' ((b :: bs).drop k) = _
        rw [ih hrest (run_waits hw hrun), ← run_append _ hrun, hcut]
      | error e =>
        show some (Except.error e) = _
        rw [← run_error_append ((b :: bs).drop k) hrun, hcut]

/-- **The loop ends, and does what `stepByte` does byte by byte.** -/
theorem handleMessage_eq_run {handler : τ → List UInt8 → τ × Option ε} {s : Stream τ}
    (hw : s.Waits) (data : List UInt8) :
    s.handleMessage handler data = some (Lib.run (stepByte handler) s data) :=
  loop_eq_run _ (by omega) hw

/-- **It does not matter how the bytes are cut.** -/
theorem feed_eq_run {handler : τ → List UInt8 → τ × Option ε} (chunks : List (List UInt8)) :
    ∀ {s : Stream τ}, s.Waits →
      s.feed handler chunks = some (Lib.run (stepByte handler) s chunks.flatten) := by
  intro s hw
  rw [← run_flatten]
  induction chunks generalizing s with
  | nil => rfl
  | cons data chunks ih =>
    rw [feed, handleMessage_eq_run hw, run]
    cases hrun : Lib.run (stepByte handler) s data with
    | ok s' => exact ih (run_waits hw hrun)
    | error e => rfl

/-- The offset counts the bytes. -/
theorem run_offset {handler : τ → List UInt8 → τ × Option ε} :
    ∀ (bs : List UInt8) {s s' : Stream τ}, Lib.run (stepByte handler) s bs = .ok s' →
      s'.offset = s.offset + bs.length := by
  have hsize : ∀ {s s' : Stream τ},
      s.gotSize = (.ok s' : Except (StreamFailure τ ε) (Stream τ)) → s'.offset = s.offset := by
    intro s s' h
    by_cases hfour : s.receiver.buffer.length = 4
    · rw [gotSize_of_eq hfour] at h
      split at h
      · cases h
      · obtain rfl := Except.ok.inj h
        rw [setMessageSize_offset]
    · rw [gotSize_of_ne hfour] at h
      obtain rfl := Except.ok.inj h
      rfl
  have hmessage : ∀ {s s' : Stream τ}, s.gotMessage handler = .ok s' → s'.offset = s.offset := by
    intro s s' h
    rw [gotMessage] at h
    split at h
    · cases h
    · obtain rfl := Except.ok.inj h
      rfl
  have hstep : ∀ {s s' : Stream τ} {b : UInt8}, s.stepByte handler b = .ok s' →
      s'.offset = s.offset + 1 := by
    intro s s' b h
    rw [stepByte] at h
    split at h
    · rw [hsize h, insert_offset, List.length_singleton]
    · split at h
      · cases h
      · split at h
        · rw [hmessage h, insert_offset, List.length_singleton]
        · obtain rfl := Except.ok.inj h
          rfl
  intro bs
  induction bs with
  | nil =>
    intro s s' h
    obtain rfl := Except.ok.inj h
    rfl
  | cons b bs ih =>
    intro s s' h
    obtain ⟨s₁, hs, hr⟩ := run_cons_ok h
    rw [ih hr, hstep hs, List.length_cons]
    omega

/-! ## What a handler sees of its state -/

/-- The stream for a handler that only sees a part of the state. -/
def map {τ' : Type} (f : τ → τ') (s : Stream τ) : Stream τ' := ⟨s.receiver, f s.state, s.offset⟩

/-- The same for what comes out of the receiver. -/
def mapResult {τ' : Type} (f : τ → τ') :
    Except (StreamFailure τ ε) (Stream τ) → Except (StreamFailure τ' ε) (Stream τ')
  | .ok s => .ok (s.map f)
  | .error e => .error ⟨e.stream.map f, e.exception⟩

section

variable {τ' : Type} {f : τ → τ'} {handler : τ → List UInt8 → τ × Option ε}
  {handler' : τ' → List UInt8 → τ' × Option ε}

@[simp] theorem map_receiver (s : Stream τ) : (s.map f).receiver = s.receiver := rfl

@[simp] theorem map_state (s : Stream τ) : (s.map f).state = f s.state := rfl

theorem map_setMessageSize (s : Stream τ) (n : Int) :
    (s.map f).setMessageSize n = (s.setMessageSize n).map f := rfl

/-- The size has nothing to do with what the handler keeps. -/
theorem gotSize_map (s : Stream τ) :
    (s.map f).gotSize = mapResult (ε := ε) f s.gotSize := by
  by_cases hfour : s.receiver.buffer.length = 4
  · rw [gotSize_of_eq hfour, gotSize_of_eq (s := s.map f) hfour, map_receiver,
      map_setMessageSize]
    split
    · rfl
    · rfl
  · rw [gotSize_of_ne hfour, gotSize_of_ne (s := s.map f) hfour]
    rfl

/-- Two handlers that agree see the same messages. -/
theorem gotMessage_map
    (hf : ∀ t packet, handler' (f t) packet = (f (handler t packet).1, (handler t packet).2))
    (s : Stream τ) : (s.map f).gotMessage handler' = mapResult f (s.gotMessage handler) := by
  rw [gotMessage, gotMessage, map_state, map_receiver, hf]
  cases handler s.state (s.receiver.buffer.drop 4) with
  | mk t e =>
    cases e with
    | none => rfl
    | some e => rfl

/-- They step through the bytes together. -/
theorem stepByte_map
    (hf : ∀ t packet, handler' (f t) packet = (f (handler t packet).1, (handler t packet).2))
    (s : Stream τ) (b : UInt8) :
    (s.map f).stepByte handler' b = mapResult f (s.stepByte handler b) := by
  rw [stepByte, stepByte, map_receiver]
  by_cases hlt : s.receiver.buffer.length < 4
  · rw [if_pos hlt, if_pos hlt]
    exact gotSize_map (s.insert [b])
  rw [if_neg hlt, if_neg hlt]
  by_cases hbad : s.receiver.buffer.length = 4 ∧ b ≠ 47
  · rw [if_pos hbad, if_pos hbad]
    rfl
  rw [if_neg hbad, if_neg hbad]
  by_cases hlast : (s.receiver.buffer.length : Int) + 1 = s.receiver.messageSize + 4
  · rw [if_pos hlast, if_pos hlast]
    exact gotMessage_map hf (s.insert [b])
  · rw [if_neg hlast, if_neg hlast]
    rfl

/-- **The parser does not depend on what the handler does**, only on whether it throws. -/
theorem run_map
    (hf : ∀ t packet, handler' (f t) packet = (f (handler t packet).1, (handler t packet).2)) :
    ∀ (bs : List UInt8) (s : Stream τ),
      Lib.run (stepByte handler') (s.map f) bs = mapResult f (Lib.run (stepByte handler) s bs) := by
  intro bs
  induction bs with
  | nil =>
    intro s
    rfl
  | cons b bs ih =>
    intro s
    rw [run, run, stepByte_map hf]
    cases s.stepByte handler b with
    | ok s' => exact ih s'
    | error e => rfl

end

end Stream

/-! ## The packets of a stream -/

/-- What a sender may put into the stream: an OSC packet with a size that fits. -/
structure IsPacket (packet : List UInt8) : Prop where
  size : packet.length < 2147483648
  aligned : packet.length % 4 = 0
  slash : packet.head? = some 47

/-- A packet with its size in front. -/
def frame (packet : List UInt8) : List UInt8 := toBytes 4 packet.length ++ packet

/-- The bytes begin with a whole packet. -/
structure StartsPacket (bytes : List UInt8) : Prop where
  size : 4 ≤ bytes.length
  good : ¬ Stream.BadSize (Stream.fromBytesInt32 (bytes.take 4))
  slash : bytes[4]? = some 47
  whole : Stream.fromBytesInt32 (bytes.take 4) + 4 ≤ bytes.length

/-- The bytes are these packets one after the other, and then a rest which does not begin
with a packet. -/
structure Deframes (bytes : List UInt8) (packets : List (List UInt8)) (rest : List UInt8) :
    Prop where
  bytes_eq : bytes = packets.flatMap frame ++ rest
  packets_ok : ∀ packet ∈ packets, IsPacket packet
  rest_ok : ¬ StartsPacket rest

/-- How the receiver treats a rest: an exception at its fifth byte, or it waits. -/
def restException (rest : List UInt8) : Option (StreamException ε) :=
  if rest.length < 4 then none
  else if Stream.BadSize (Stream.fromBytesInt32 (rest.take 4)) then
    some (.malformedPacket "bad OSC packet size")
  else if 4 < rest.length ∧ rest[4]? ≠ some 47 then
    some (.malformedMessage "not an OSC message")
  else none

/-- A receiver that holds a rest. -/
def holding (rest : List UInt8) : OscStreamReceiver :=
  ⟨rest, if rest.length < 4 then 0 else Stream.fromBytesInt32 (rest.take 4)⟩

/-- What becomes of packets and a rest, with a handler that does not throw. -/
def outcome (handler : τ → List UInt8 → τ) (t : τ) (packets : List (List UInt8))
    (rest : List UInt8) : Except (StreamFailure τ ε) (Stream τ) :=
  let start := (packets.flatMap frame).length
  match restException rest with
  | some e => .error ⟨⟨{}, packets.foldl handler t, start + 4⟩, e⟩
  | none => .ok ⟨holding rest, packets.foldl handler t, start + rest.length⟩

/-- A size below 2^31 is read as it was written. -/
theorem fromBytesInt32_toBytes {n : Nat} (h : n < 2147483648) :
    Stream.fromBytesInt32 (toBytes 4 n) = n := by
  rw [Stream.fromBytesInt32, fromBytes_toBytes, Nat.mod_eq_of_lt (by omega)]
  exact signed_of_lt (by omega)

/-- A good size can be read back from its bytes. -/
theorem toBytes_fromBytesInt32 {bs : List UInt8} (hlen : bs.length = 4)
    (h : ¬ Stream.BadSize (Stream.fromBytesInt32 bs)) :
    toBytes 4 (Stream.fromBytesInt32 bs).toNat = bs ∧
      (Stream.fromBytesInt32 bs).toNat < 2147483648 := by
  have hpos : 0 < Stream.fromBytesInt32 bs := Int.not_le.mp fun hle => h (Or.inl hle)
  have hlt := fromBytes_lt bs
  rw [hlen] at hlt
  have hsize : Stream.fromBytesInt32 bs = fromBytes bs := signed_of_nonneg (by omega) hpos.le
  constructor
  · rw [hsize, Int.toNat_natCast, ← hlen, toBytes_fromBytes]
  · rw [hsize, Int.toNat_natCast]
    by_contra hge
    have hneg : signed 4294967296 (fromBytes bs) = (fromBytes bs : Int) := hsize
    have hbound := Int.bmod_lt (x := (fromBytes bs : Int)) (m := 4294967296) (by omega)
    rw [signed] at hneg
    omega

/-- A whole packet at the front of the bytes. -/
theorem StartsPacket.cut {bytes : List UInt8} (h : StartsPacket bytes) :
    ∃ packet rest, bytes = frame packet ++ rest ∧ IsPacket packet := by
  have hlen : (bytes.take 4).length = 4 := by
    rw [List.length_take]
    have := h.size
    omega
  obtain ⟨hback, hsmall⟩ := toBytes_fromBytesInt32 hlen h.good
  have hsize : 0 < Stream.fromBytesInt32 (bytes.take 4) ∧
      Stream.fromBytesInt32 (bytes.take 4) % 4 = 0 := by
    have hgood := h.good
    rw [Stream.BadSize] at hgood
    omega
  have hwhole := h.whole
  revert hback hsmall hsize hwhole
  generalize Stream.fromBytesInt32 (bytes.take 4) = size
  intro hback hsmall hsize hwhole
  have hpacket : ((bytes.drop 4).take size.toNat).length = size.toNat := by
    rw [List.length_take, List.length_drop]
    omega
  refine ⟨(bytes.drop 4).take size.toNat, (bytes.drop 4).drop size.toNat, ?_, ?_⟩
  · rw [frame, hpacket, hback, List.append_assoc, List.take_append_drop, List.take_append_drop]
  · refine ⟨by omega, by omega, ?_⟩
    rw [List.head?_take, if_neg (by omega), List.head?_drop, h.slash]

/-- **All bytes are packets and a rest.** -/
theorem deframes_exists (bytes : List UInt8) : ∃ packets rest, Deframes bytes packets rest := by
  by_cases h : StartsPacket bytes
  · obtain ⟨packet, tail, htail, hpacket⟩ := h.cut
    have hshorter : tail.length < bytes.length := by
      rw [htail, frame, List.length_append, List.length_append, toBytes_length]
      omega
    obtain ⟨packets, rest, hrest⟩ := deframes_exists tail
    refine ⟨packet :: packets, rest, ?_, ?_, hrest.rest_ok⟩
    · rw [List.flatMap_cons, List.append_assoc, ← hrest.bytes_eq, htail]
    · intro p hp
      rcases List.mem_cons.mp hp with rfl | hp
      · exact hpacket
      · exact hrest.packets_ok p hp
  · exact ⟨[], bytes, rfl, fun _ hp => absurd hp List.not_mem_nil, h⟩
termination_by bytes.length

/-! ## What the receiver makes of them -/

/-- A message size that is accepted. -/
theorem run_good_size (handler : τ → List UInt8 → τ × Option ε) (s : Stream τ)
    {size : List UInt8} (hs : s.receiver.buffer = []) (hlen : size.length = 4)
    (hgood : ¬ Stream.BadSize (Stream.fromBytesInt32 size)) :
    Lib.run (Stream.stepByte handler) s size =
      .ok ((s.insert size).setMessageSize (Stream.fromBytesInt32 size)) := by
  have hbuffer : (s.insert size).receiver.buffer = size := by
    rw [Stream.insert_buffer, hs, List.nil_append]
  have h := Stream.run_take_size handler s size (by rw [hs]; exact Nat.zero_lt_succ 3)
  rw [hs, hlen, List.length_nil, Nat.sub_zero, Nat.min_self, ← hlen, List.take_length] at h
  rw [h, Stream.gotSize_of_eq (by rw [hbuffer, hlen]), hbuffer, if_neg hgood]

/-- A message size that is refused. -/
theorem run_bad_size (handler : τ → List UInt8 → τ × Option ε) (s : Stream τ)
    {size : List UInt8} (hs : s.receiver.buffer = []) (hlen : size.length = 4)
    (hbad : Stream.BadSize (Stream.fromBytesInt32 size)) :
    Lib.run (Stream.stepByte handler) s size =
      .error ⟨(s.insert size).reset, .malformedPacket "bad OSC packet size"⟩ := by
  have hbuffer : (s.insert size).receiver.buffer = size := by
    rw [Stream.insert_buffer, hs, List.nil_append]
  have h := Stream.run_take_size handler s size (by rw [hs]; exact Nat.zero_lt_succ 3)
  rw [hs, hlen, List.length_nil, Nat.sub_zero, Nat.min_self, ← hlen, List.take_length] at h
  rw [h, Stream.gotSize_of_eq (by rw [hbuffer, hlen]), hbuffer, if_pos hbad]

/-- The size of a packet is accepted. -/
theorem IsPacket.goodSize {packet : List UInt8} (h : IsPacket packet) :
    ¬ Stream.BadSize (Stream.fromBytesInt32 (toBytes 4 packet.length)) := by
  have hne : packet ≠ [] := by
    intro hnil
    have := h.slash
    rw [hnil] at this
    cases this
  have hpos := List.length_pos_iff.mpr hne
  have haligned := h.aligned
  rw [fromBytesInt32_toBytes h.size, Stream.BadSize]
  omega

/-- A frame is the size and the packet. -/
theorem drop_frame (packet : List UInt8) : (frame packet).drop 4 = packet :=
  List.drop_left' (toBytes_length 4 packet.length)

/-- A whole packet reaches the handler. If that throws, the packet stays in the buffer. -/
theorem run_frame (handler : τ → List UInt8 → τ × Option ε) (t : τ) (k : Nat)
    {packet : List UInt8} (h : IsPacket packet) :
    Lib.run (Stream.stepByte handler) ⟨{}, t, k⟩ (frame packet) =
      match handler t packet with
      | (t', some e) =>
        .error ⟨⟨⟨frame packet, packet.length⟩, t', k + (frame packet).length⟩, .handler e⟩
      | (t', none) => .ok ⟨{}, t', k + (frame packet).length⟩ := by
  have hsize := run_good_size handler ⟨{}, t, k⟩ rfl (toBytes_length _ _)
    h.goodSize
  rw [fromBytesInt32_toBytes h.size] at hsize
  have hpos : 0 < packet.length := by
    have := h.slash
    cases packet with
    | nil => cases this
    | cons b bs => exact Nat.zero_lt_succ _
  have hdata := Stream.run_take_data handler
    ((Stream.insert ⟨{}, t, k⟩ (toBytes 4 packet.length)).setMessageSize packet.length)
    packet packet.length (by simp) (by simp [Int.add_comm]) hpos (fun _ => h.slash)
  rw [Nat.min_self, if_pos rfl, List.take_length] at hdata
  have hfull : ((Stream.insert ⟨{}, t, k⟩ (toBytes 4 packet.length)).setMessageSize
      packet.length).insert packet =
      ⟨⟨frame packet, packet.length⟩, t, k + (frame packet).length⟩ := by
    simp [Stream.insert, Stream.setMessageSize, frame, Nat.add_assoc]
  rw [hfull, Stream.gotMessage] at hdata
  rw [frame, run_append _ hsize, hdata, ← frame]
  dsimp only
  rw [drop_frame]
  rfl

/-- A rest is kept, or there is an exception at its fifth byte. -/
theorem run_rest {handler : τ → List UInt8 → τ × Option ε} {t : τ} {k : Nat}
    {rest : List UInt8} (h : ¬ StartsPacket rest) :
    Lib.run (Stream.stepByte handler) ⟨{}, t, k⟩ rest =
      match restException rest with
      | some e => .error ⟨⟨{}, t, k + 4⟩, e⟩
      | none => .ok ⟨holding rest, t, k + rest.length⟩ := by
  by_cases hshort : rest.length < 4
  · rw [restException, holding, if_pos hshort, if_pos hshort, Stream.run_size rest (by simpa)]
    simp [Stream.insert]
  -- the size is there, and perhaps some of the message
  have hlen : (rest.take 4).length = 4 := by
    rw [List.length_take]
    omega
  have hcut := List.take_append_drop 4 rest
  by_cases hbad : Stream.BadSize (Stream.fromBytesInt32 (rest.take 4))
  · have hrun := run_bad_size handler ⟨{}, t, k⟩ rfl hlen hbad
    have hall := run_error_append (rest.drop 4) hrun
    rw [hcut] at hall
    rw [restException, if_neg hshort, if_pos hbad, hall]
    simp [Stream.insert, Stream.reset, OscStreamReceiver.reset, hlen]
  have hrun := run_good_size handler ⟨{}, t, k⟩ rfl hlen hbad
  have hall := run_append (rest.drop 4) hrun
  rw [hcut] at hall
  rw [restException, if_neg hshort, if_neg hbad, hall]
  have hhead : (rest.drop 4).head? = rest[4]? := by
    rw [List.head?_drop]
  by_cases hslash : 4 < rest.length ∧ rest[4]? ≠ some 47
  · -- the first byte of the message is refused
    rw [if_pos hslash]
    cases hdata : rest.drop 4 with
    | nil =>
      have := congrArg List.length hdata
      rw [List.length_drop, List.length_nil] at this
      omega
    | cons b bs =>
      rw [hdata, List.head?_cons] at hhead
      rw [run, Stream.stepByte, if_neg (by simp; omega), if_pos]
      · simp [Stream.insert, Stream.setMessageSize, Stream.reset, OscStreamReceiver.reset]
        omega
      · refine ⟨by simp; omega, ?_⟩
        intro hb
        exact hslash.2 (by rw [← hhead, hb])
  · -- the message begins, and is not complete
    rw [if_neg hslash, holding, if_neg hshort]
    have hfew : (rest.length : Int) < Stream.fromBytesInt32 (rest.take 4) + 4 := by
      by_cases hmore : 4 < rest.length
      · have hfirst : rest[4]? = some 47 := by
          by_contra hne
          exact hslash ⟨hmore, hne⟩
        by_contra hge
        exact h ⟨by omega, hbad, hfirst, by omega⟩
      · rw [Stream.BadSize] at hbad
        omega
    revert hfew
    generalize Stream.fromBytesInt32 (rest.take 4) = size
    intro hfew
    rw [Stream.run_data (rest.drop 4) (by simp; omega) (by simp; omega), Stream.insert,
      Stream.setMessageSize]
    · simp [Stream.insert]
      omega
    · intro _ b hb
      rw [hhead] at hb
      by_contra hne
      refine hslash ⟨(List.getElem?_eq_some_iff.mp hb).1, ?_⟩
      intro hfirst
      rw [hfirst] at hb
      exact hne (Option.some.inj hb).symm

/-- The receiver hands over packet after packet, as long as the handler does not throw. -/
theorem run_packets {handler : τ → List UInt8 → τ × Option ε} :
    ∀ (packets : List (List UInt8)) {t : τ} {k : Nat}, (∀ packet ∈ packets, IsPacket packet) →
      (∀ packet ∈ packets, ∀ t, (handler t packet).2 = none) →
      Lib.run (Stream.stepByte handler) ⟨{}, t, k⟩ (packets.flatMap frame) =
        .ok ⟨{}, packets.foldl (fun t packet => (handler t packet).1) t,
          k + (packets.flatMap frame).length⟩ := by
  intro packets
  induction packets with
  | nil =>
    intro t k _ _
    rfl
  | cons packet packets ih =>
    intro t k h hquiet
    have hnone := hquiet packet (List.mem_cons_self ..) t
    have hfirst : Lib.run (Stream.stepByte handler) ⟨{}, t, k⟩ (frame packet) =
        .ok ⟨{}, (handler t packet).1, k + (frame packet).length⟩ := by
      rw [run_frame handler t k (h packet (List.mem_cons_self ..))]
      split
      next t' e heq =>
        rw [heq] at hnone
        cases hnone
      next t' heq => rw [heq]
    rw [List.flatMap_cons, run_append _ hfirst,
      ih (fun p hp => h p (List.mem_cons_of_mem _ hp))
        (fun p hp => hquiet p (List.mem_cons_of_mem _ hp)),
      List.length_append, Nat.add_assoc]
    rfl

/-- A handler that does not throw. -/
def quiet (ε : Type) (handler : τ → List UInt8 → τ) (t : τ) (packet : List UInt8) :
    τ × Option ε :=
  (handler t packet, none)

/-- The receiver finds the packets, and holds or refuses the rest. -/
theorem run_deframes {handler : τ → List UInt8 → τ} {t : τ} {bytes : List UInt8}
    {packets : List (List UInt8)} {rest : List UInt8} (h : Deframes bytes packets rest) :
    Lib.run (Stream.stepByte (quiet ε handler)) ⟨{}, t, 0⟩ bytes =
      outcome handler t packets rest := by
  rw [h.bytes_eq, run_append _ (run_packets packets h.packets_ok fun _ _ _ => rfl),
    run_rest h.rest_ok, Nat.zero_add, outcome]
  rfl

/-- **Framing does not depend on how the stream is cut**: the pieces of a stream leave the
receiver as the whole stream does in one piece, which is with the packets of the stream handed
over in their order, and with its rest in the buffer or refused. -/
theorem chunks_deframe (handler : τ → List UInt8 → τ) (t : τ) (chunks : List (List UInt8)) :
    Stream.feed (quiet ε handler) ⟨{}, t, 0⟩ chunks =
        Stream.feed (quiet ε handler) ⟨{}, t, 0⟩ [chunks.flatten] ∧
      ∃ packets rest, Deframes chunks.flatten packets rest ∧
        Stream.feed (quiet ε handler) ⟨{}, t, 0⟩ chunks =
          some (outcome handler t packets rest) := by
  have hnew := Stream.waits_new t 0
  constructor
  · rw [Stream.feed_eq_run _ hnew, Stream.feed_eq_run _ hnew, List.flatten_singleton]
  · obtain ⟨packets, rest, h⟩ := deframes_exists chunks.flatten
    exact ⟨packets, rest, h, by rw [Stream.feed_eq_run _ hnew, run_deframes h]⟩

end Aoo.Net
