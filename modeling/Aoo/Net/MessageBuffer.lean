import Mathlib.Data.Finset.Basic
import Mathlib.Data.Finset.Lattice.Lemmas
import Mathlib.Data.Finset.Range
import Aoo.Lib.Buffer
import Aoo.Binmsg

/-!
# Sent and received peer messages

`message_buffer.hpp` and `message_buffer.cpp`. A message is cut into frames;
the sender remembers which of them have been acknowledged, the receiver which
of them have arrived. Both keep a `std::bitset<256>` of the frames that are
still outstanding, here the finite set of their indices.

The functions are the ones of an `NDEBUG` build: assertions check nothing, and
what would then be undefined behaviour is a `Fault`. `addFrame_eq` says when
`add_frame` is free of faults and what it does then; the later modules use that
instead of the definition.
-/

namespace Aoo.Net

open Lib

/-- Undefined behaviour in the handling of peer messages, and exceptions that
nobody catches. -/
inductive Fault
  /-- a read behind the end of the packet -/
  | read
  /-- a copy outside the buffer of a message -/
  | copy
  /-- a frame index outside `std::bitset<256>` -/
  | frame
  /-- a copy behind the end of the local buffer of `send_packet_bin` -/
  | overrun
  /-- an exception of `send_packet_osc`, which leaves `Client::send` -/
  | exception
  deriving DecidableEq, Repr

/-- `aoo::metadata`: the type is an `int32`. -/
structure Metadata where
  type : Int
  data : List UInt8
  type_ge : -2147483648 ≤ type := by decide
  type_lt : type < 2147483648 := by decide
  deriving DecidableEq

/-- `std::bitset<256>::size()` -/
def frameLimit : Nat := 256

/-- An index into a `std::bitset<256>`. -/
def FrameIndexOk (index : Int) : Prop := 0 ≤ index ∧ index < 256

instance (index : Int) : Decidable (FrameIndexOk index) :=
  inferInstanceAs (Decidable (_ ∧ _))

/-! ## sent_message -/

/-- `sent_message`, without the time of the next resend: when a message is
resent depends on the clock and is an input of `do_send`. -/
structure SentMessage where
  data : Metadata
  tt : Nat
  sequence : Int
  numFrames : Nat
  frameSize : Nat
  /-- the frames that have not been acknowledged -/
  frames : Finset Nat
  deriving DecidableEq

namespace SentMessage

/-- The constructor marks every frame as outstanding. -/
def new (data : Metadata) (tt : Nat) (sequence : Int) (numFrames frameSize : Nat) :
    Except Fault SentMessage :=
  if numFrames > frameLimit then .error .frame
  else .ok ⟨data, tt, sequence, numFrames, frameSize, Finset.range numFrames⟩

/-- With at most 256 frames the bits of all of them are set. -/
theorem new_eq (data : Metadata) (tt : Nat) (sequence : Int) {numFrames : Nat} (frameSize : Nat)
    (h : numFrames ≤ 256) : new data tt sequence numFrames frameSize =
      .ok ⟨data, tt, sequence, numFrames, frameSize, Finset.range numFrames⟩ :=
  if_neg (Nat.not_lt.mpr h)

/-- With more, `std::bitset::set` throws. -/
theorem new_of_gt (data : Metadata) (tt : Nat) (sequence : Int) {numFrames : Nat} (frameSize : Nat)
    (h : 256 < numFrames) : new data tt sequence numFrames frameSize = .error .frame :=
  if_pos h

/-- `has_frame`: has the frame been acknowledged? -/
def hasFrame (m : SentMessage) (index : Nat) : Bool := index ∉ m.frames

/-- `get_frame` -/
def getFrame (m : SentMessage) (index : Nat) : List UInt8 :=
  if m.numFrames = 1 then
    -- single-frame message
    m.data.data
  else if index = m.numFrames - 1 then
    -- last frame
    m.data.data.drop ((index - 1) * m.frameSize)
  else (m.data.data.drop (index * m.frameSize)).take m.frameSize

/-- `ack_frame` -/
def ackFrame (m : SentMessage) (index : Int) : Except Fault SentMessage :=
  if FrameIndexOk index then .ok { m with frames := m.frames.erase index.toNat }
  else .error .frame

/-- `ack_all` -/
def ackAll (m : SentMessage) : SentMessage := { m with frames := ∅ }

/-- `complete` -/
def complete (m : SentMessage) : Bool := m.frames = ∅

end SentMessage

/-! ## received_message -/

/-- `aoo::allocate`: fresh bytes are unset. A negative `int32` turns into a
`size_t` that no allocator serves, so `operator new` throws. -/
def allocate (size : Int) : Option (List (Option UInt8)) :=
  if size < 0 then none else some (List.replicate size.toNat none)

/-- `received_message` -/
structure ReceivedMessage where
  sequence : Int := kAooIdInvalid
  size : Int := 0
  tt : Nat := 0
  data : Option (List (Option UInt8)) := none
  type : Int := 0
  numFrames : Int := 0
  /-- the frames that have not arrived -/
  frames : Finset Nat := ∅
  deriving DecidableEq

namespace ReceivedMessage

/-- `placeholder` -/
def placeholder (m : ReceivedMessage) : Bool := m.data.isNone

/-- `complete` -/
def complete (m : ReceivedMessage) : Bool := m.data.isSome && decide (m.frames = ∅)

/-- What `init` leaves behind when the allocation succeeds. -/
def initialised (m : ReceivedMessage) (type : Int) (tt : Nat) (numFrames size : Int)
    (data : List (Option UInt8)) : ReceivedMessage :=
  { m with tt, size, data := some data, type, numFrames,
           frames := m.frames ∪ Finset.range numFrames.toNat }

/-- `init`. The flag is false when the allocation throws; the time tag and the
size have been set by then. -/
def init (m : ReceivedMessage) (type : Int) (tt : Nat) (numFrames size : Int) :
    Except Fault (ReceivedMessage × Bool) :=
  match allocate size with
  | none => .ok ({ m with tt, size }, false)
  | some data =>
    if numFrames > frameLimit then .error .frame
    else .ok (m.initialised type tt numFrames size data, true)

/-- `has_frame` -/
def hasFrame (m : ReceivedMessage) (index : Int) : Except Fault Bool :=
  if FrameIndexOk index then .ok (decide (index.toNat ∉ m.frames)) else .error .frame

/-- Where `add_frame` copies a frame of `n` bytes: the last frame ends where the
buffer ends, the others start at a multiple of their own size. -/
def frameOnset (m : ReceivedMessage) (index : Int) (n : Nat) : Int :=
  if index = m.numFrames - 1 then m.size - n else index * n

/-- The message after `add_frame`. -/
def withFrame (m : ReceivedMessage) (index : Int) (data : List UInt8) : ReceivedMessage :=
  { m with
    data := copyTo m.data (m.frameOnset index data.length) (data.map some)
    frames := m.frames.erase index.toNat }

/-- `add_frame` -/
def addFrame (m : ReceivedMessage) (index : Int) (data : List UInt8) :
    Except Fault ReceivedMessage :=
  if CopyFits m.data (m.frameOnset index data.length) data.length then
    if FrameIndexOk index then .ok (m.withFrame index data) else .error .frame
  else .error .copy

/-- The frame is copied inside the buffer, and its index is one of the bitset. -/
def FrameFits (m : ReceivedMessage) (index : Int) (n : Nat) : Prop :=
  CopyFits m.data (m.frameOnset index n) n ∧ FrameIndexOk index

instance (m : ReceivedMessage) (index : Int) (n : Nat) : Decidable (m.FrameFits index n) :=
  inferInstanceAs (Decidable (_ ∧ _))

/-- A frame that fits is copied. -/
theorem addFrame_eq {m : ReceivedMessage} {index : Int} {data : List UInt8}
    (h : m.FrameFits index data.length) :
    m.addFrame index data = .ok (m.withFrame index data) := by
  rw [addFrame, if_pos h.1, if_pos h.2]

/-- No other frame is. -/
theorem addFrame_ok_iff {m : ReceivedMessage} {index : Int} {data : List UInt8} :
    (∃ m', m.addFrame index data = .ok m') ↔ m.FrameFits index data.length := by
  constructor
  · rintro ⟨m', h⟩
    rw [addFrame] at h
    split at h
    next hcopy =>
      split at h
      next hidx => exact ⟨hcopy, hidx⟩
      next => cases h
    next => cases h
  · intro h
    exact ⟨_, addFrame_eq h⟩

/-- The bitset has the frames that are missing. -/
theorem hasFrame_eq {m : ReceivedMessage} {index : Int} (h : FrameIndexOk index) :
    m.hasFrame index = .ok (decide (index.toNat ∉ m.frames)) :=
  if_pos h

/-- A negative size is stored and refused. -/
theorem init_of_neg (m : ReceivedMessage) (type : Int) (tt : Nat) (numFrames : Int) {size : Int}
    (h : size < 0) : m.init type tt numFrames size = .ok ({ m with tt, size }, false) := by
  rw [init, allocate, if_pos h]

/-- A placeholder gets its memory and the bits of its frames. -/
theorem init_eq (m : ReceivedMessage) (type : Int) (tt : Nat) {numFrames size : Int}
    (h : 0 ≤ size) (hn : numFrames ≤ 256) :
    m.init type tt numFrames size =
      .ok (m.initialised type tt numFrames size (List.replicate size.toNat none), true) := by
  have hlimit : ¬ numFrames > (frameLimit : Int) := by
    simp only [frameLimit]
    omega
  rw [init, allocate, if_neg (by omega)]
  simp only [if_neg hlimit]

/-- With more than 256 frames `init` throws as the constructor does. -/
theorem init_of_gt (m : ReceivedMessage) (type : Int) (tt : Nat) {numFrames size : Int}
    (h : 0 ≤ size) (hn : 256 < numFrames) :
    m.init type tt numFrames size = .error .frame := by
  rw [init, allocate, if_neg (by omega)]
  simp [frameLimit, hn]

end ReceivedMessage

/-! ## message_receive_buffer -/

/-- `message_receive_buffer` -/
structure MessageReceiveBuffer where
  data : List ReceivedMessage := []
  lastPushed : Int := -1
  lastPopped : Int := -1
  deriving DecidableEq

namespace MessageReceiveBuffer

/-- `push` -/
def push (b : MessageReceiveBuffer) (m : ReceivedMessage) : MessageReceiveBuffer :=
  { b with lastPushed := m.sequence, data := b.data ++ [m] }

/-- `pop` -/
def pop (b : MessageReceiveBuffer) : MessageReceiveBuffer :=
  match b.data with
  | [] => b
  | m :: rest => { b with lastPopped := m.sequence, data := rest }

/-- `find`: the position of the message with that sequence number. -/
def find (b : MessageReceiveBuffer) (seq : Int) : Option Nat :=
  b.data.findIdx? (·.sequence = seq)

/-- Put back the message that `find` returned a pointer to. -/
def set (b : MessageReceiveBuffer) (i : Nat) (m : ReceivedMessage) : MessageReceiveBuffer :=
  { b with data := b.data.set i m }

/-- The loop that hands over completed messages in order; `n` bounds its
iterations. -/
def popComplete : Nat → MessageReceiveBuffer → List ReceivedMessage × MessageReceiveBuffer
  | 0, b => ([], b)
  | n + 1, b =>
    match b.data with
    | [] => ([], b)
    | m :: _ =>
      if m.complete then
        let (done, b') := popComplete n b.pop
        (m :: done, b')
      else ([], b)

end MessageReceiveBuffer

end Aoo.Net
