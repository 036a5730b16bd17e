import Aoo.Lib.Buffer
import Aoo.Lib.Run
import Aoo.Osc.Arguments

/-!
# `OutboundPacketStream`

The stream writes OSC packets into a buffer of fixed size. The contents grow from the front.
While a message is being built its type tags are put down at the end of the buffer, the
first one last, and `EndMessage` moves the arguments back to make room for them. An element
inside a bundle has four bytes for its size in front; while it is open they hold the place of the
size of the element around it (`elementSizePtr_`), so that the open elements are a linked list in the
packet itself.

The functions are those of `OscOutboundPacketStream.cpp` with offsets for pointers. A write or
a read outside of the buffer is a failure of its own, and so is a failed assertion; `attempt` is an
operator whose exception has been caught.

`Draft` says what the stream is for: the finished bytes, the contents of the open elements, and
the tags and arguments of the message that is being built.
-/

namespace Aoo.Osc

open Lib

/-! ## The stream -/

inductive Exception
  | outOfBufferMemory
  | bundleNotInProgress
  | messageInProgress
  | messageNotInProgress
  deriving DecidableEq, Repr

inductive Failure
  | thrown (e : Exception)
  | outOfBounds
  | assertion
  deriving DecidableEq, Repr

/-- `data_` to `end_`, and the offsets of the pointers. -/
structure OutboundPacketStream where
  buffer : List UInt8
  typeTagsCurrent : Nat
  messageCursor : Nat := 0
  argumentCurrent : Nat := 0
  /-- `none` for a null pointer. -/
  elementSizePtr : Option Nat := none
  messageIsInProgress : Bool := false

/-- What is streamed. -/
inductive Op
  | beginBundle (timeTag : BitVec 64)
  | endBundle
  | beginMessage (addressPattern : CString)
  | endMessage
  | arg (a : Arg)

/-- `"#bundle"` with its zero byte. -/
def bundleTag : List UInt8 := [35, 98, 117, 110, 100, 108, 101, 0]

/-- An integer in the host's byte order. -/
def hostBytes (v : Nat) : List UInt8 := (toBytes 4 v).reverse

def hostValue (bs : List UInt8) : Nat := fromBytes bs.reverse

namespace OutboundPacketStream

/-- The constructor, and what `Clear` goes back to. -/
def create (buffer : List UInt8) : OutboundPacketStream where
  buffer := buffer
  typeTagsCurrent := buffer.length

def capacity (s : OutboundPacketStream) : Nat := s.buffer.length

/-- The type tags that are there. -/
def typeTagsCount (s : OutboundPacketStream) : Nat := s.capacity - s.typeTagsCurrent

def size (s : OutboundPacketStream) : Nat :=
  s.argumentCurrent + if s.messageIsInProgress then pad4 (s.typeTagsCount + 2) else 0

def isReady (s : OutboundPacketStream) : Bool :=
  !s.messageIsInProgress && s.elementSizePtr.isNone

def store (s : OutboundPacketStream) (i : Nat) (bs : List UInt8) :
    Except Failure OutboundPacketStream :=
  if i + bs.length ≤ s.capacity then .ok { s with buffer := writeAt s.buffer i bs }
  else .error .outOfBounds

def load (s : OutboundPacketStream) (i n : Nat) : Except Failure (List UInt8) :=
  if i + n ≤ s.capacity then .ok ((s.buffer.drop i).take n) else .error .outOfBounds

/-- `BeginElement(messageCursor_)`, which moves the message cursor. -/
def beginElement (s : OutboundPacketStream) : Except Failure OutboundPacketStream :=
  match s.elementSizePtr with
  | none => .ok { s with elementSizePtr := some 0 }
  | some p => do
    -- the slot for the size holds the outer element until then
    let s' ← s.store s.messageCursor (hostBytes p)
    return { s' with
      elementSizePtr := some s.messageCursor
      messageCursor := s.messageCursor + 4 }

/-- `EndElement(messageCursor_)` -/
def endElement (s : OutboundPacketStream) : Except Failure OutboundPacketStream :=
  match s.elementSizePtr with
  | none => .error .assertion
  | some p =>
    if p = 0 then .ok { s with elementSizePtr := none }
    else do
      let slot ← s.load p 4
      let s' ← s.store p (toBytes 4 (s.messageCursor - p - 4))
      return { s' with elementSizePtr := some (hostValue slot) }

/-- `ElementSizeSlotRequired() ? 4 : 0` -/
def slotSize (s : OutboundPacketStream) : Nat := if s.elementSizePtr.isSome then 4 else 0

def check (s : OutboundPacketStream) (required : Nat) : Except Failure Unit :=
  if required > s.capacity then .error (.thrown .outOfBufferMemory) else .ok ()

def beginBundle (s : OutboundPacketStream) (timeTag : BitVec 64) :
    Except Failure OutboundPacketStream :=
  if s.messageIsInProgress then .error (.thrown .messageInProgress)
  else do
    s.check (s.size + s.slotSize + 16)
    let s ← s.beginElement
    let s ← s.store s.messageCursor (bundleTag ++ fromUInt64 timeTag)
    return { s with
      messageCursor := s.messageCursor + 16
      argumentCurrent := s.messageCursor + 16 }

def endBundle (s : OutboundPacketStream) : Except Failure OutboundPacketStream :=
  if s.elementSizePtr.isNone then .error (.thrown .bundleNotInProgress)
  else if s.messageIsInProgress then .error (.thrown .messageInProgress)
  else s.endElement

def beginMessage (s : OutboundPacketStream) (addressPattern : CString) :
    Except Failure OutboundPacketStream :=
  if s.messageIsInProgress then .error (.thrown .messageInProgress)
  else do
    s.check (s.size + s.slotSize + pad4 (addressPattern.bytes.length + 1) + 4)
    let s ← s.beginElement
    let s ← s.store s.messageCursor addressPattern.padded
    return { s with
      messageCursor := s.messageCursor + addressPattern.padded.length
      argumentCurrent := s.messageCursor + addressPattern.padded.length
      typeTagsCurrent := s.capacity
      messageIsInProgress := true }

/-- The arguments are moved behind the place of the type tags, which are copied there. -/
def moveTypeTags (s : OutboundPacketStream) : Except Failure OutboundPacketStream :=
  if s.typeTagsCount = 0 then do
    let s ← s.store s.messageCursor (tagString [])
    return { s with messageCursor := s.messageCursor + 4 }
  else do
    let tempTypeTags ← s.load s.typeTagsCurrent s.typeTagsCount
    let slot := pad4 (s.typeTagsCount + 2)
    let argumentsSize := s.argumentCurrent - s.messageCursor
    let arguments ← s.load s.messageCursor argumentsSize
    -- this can overwrite the type tags at the end of the buffer, hence the copy
    let s ← s.store (s.messageCursor + slot) arguments
    let s ← s.store s.messageCursor (tagString tempTypeTags.reverse)
    return { s with
      typeTagsCurrent := s.capacity
      messageCursor := s.messageCursor + (slot + argumentsSize) }

def endMessage (s : OutboundPacketStream) : Except Failure OutboundPacketStream :=
  if s.messageIsInProgress then do
    let s ← s.moveTypeTags
    let s ← { s with argumentCurrent := s.messageCursor }.endElement
    return { s with messageIsInProgress := false }
  else .error (.thrown .messageNotInProgress)

/-- `*(--typeTagsCurrent_) = tag` -/
def putTag (s : OutboundPacketStream) (tag : UInt8) : Except Failure OutboundPacketStream :=
  if s.typeTagsCurrent = 0 then .error .outOfBounds
  else do
    let s ← s.store (s.typeTagsCurrent - 1) [tag]
    return { s with typeTagsCurrent := s.typeTagsCurrent - 1 }

/-- The operators for the arguments, which do not look whether a message is in progress. -/
def put (s : OutboundPacketStream) (a : Arg) : Except Failure OutboundPacketStream := do
  -- plus three for extra type tag, comma and null terminator
  s.check (s.argumentCurrent + a.size + pad4 (s.typeTagsCount + 3))
  let s ← s.putTag a.tag
  let s ← s.store s.argumentCurrent a.bytes
  return { s with argumentCurrent := s.argumentCurrent + a.bytes.length }

def step (s : OutboundPacketStream) : Op → Except Failure OutboundPacketStream
  | .beginBundle timeTag => s.beginBundle timeTag
  | .endBundle => s.endBundle
  | .beginMessage addressPattern => s.beginMessage addressPattern
  | .endMessage => s.endMessage
  | .arg a => s.put a

/-- The caller catches the exception and goes on. -/
def attempt (s : OutboundPacketStream) (op : Op) : Except Failure OutboundPacketStream :=
  match s.step op with
  | .ok s' => .ok s'
  | .error (.thrown _) => .ok s
  | .error e => .error e

end OutboundPacketStream

/-! ## The draft -/

/-- A packet that is being written. -/
structure Draft where
  capacity : Nat
  /-- The elements that are complete, outside of all bundles. -/
  done : List UInt8 := []
  /-- The contents of the open elements, the innermost first. -/
  opened : List (List UInt8) := []
  /-- The type tags and arguments that have been streamed. -/
  tags : List UInt8 := []
  arguments : List UInt8 := []
  inMessage : Bool := false

namespace Draft

/-- The bytes of the complete and the open elements, with four bytes for each size that is still
missing. -/
def used (d : Draft) : Nat :=
  d.done.length + (d.opened.map List.length).sum + 4 * (d.opened.length - 1)

def size (d : Draft) : Nat :=
  d.used + d.arguments.length + if d.inMessage then pad4 (d.tags.length + 2) else 0

/-- A new element. -/
def begin (d : Draft) (contents : List UInt8) : Draft :=
  { d with opened := contents :: d.opened, arguments := [] }

/-- More for the innermost element. -/
def extend (d : Draft) (contents : List UInt8) : Draft :=
  match d.opened with
  | [] => d
  | e :: es => { d with opened := (e ++ contents) :: es }

/-- The innermost element is complete. In an element it has its size in front. -/
def close (d : Draft) : Draft :=
  match d.opened with
  | [] => d
  | [e] => { d with done := d.done ++ e, opened := [] }
  | e :: f :: es => { d with opened := (f ++ toBytes 4 e.length ++ e) :: es }

/-- The size of an element counts only in an element. -/
def slotSize (d : Draft) : Nat := if d.opened = [] then 0 else 4

def step (d : Draft) : Op → Except Exception Draft
  | .beginBundle timeTag =>
    if d.inMessage then .error .messageInProgress
    else if d.size + d.slotSize + 16 > d.capacity then .error .outOfBufferMemory
    else .ok (d.begin (bundleTag ++ fromUInt64 timeTag))
  | .endBundle =>
    if d.opened = [] then .error .bundleNotInProgress
    else if d.inMessage then .error .messageInProgress
    else .ok d.close
  | .beginMessage address =>
    if d.inMessage then .error .messageInProgress
    else if d.size + d.slotSize + pad4 (address.bytes.length + 1) + 4 > d.capacity then
      .error .outOfBufferMemory
    else .ok { d.begin address.padded with tags := [], inMessage := true }
  | .endMessage =>
    if d.inMessage then
      .ok { (d.extend (tagString d.tags ++ d.arguments)).close with
        tags := [], arguments := [], inMessage := false }
    else .error .messageNotInProgress
  | .arg a =>
    if d.used + d.arguments.length + a.size + pad4 (d.tags.length + 3) > d.capacity then
      .error .outOfBufferMemory
    else .ok { d with tags := d.tags ++ [a.tag], arguments := d.arguments ++ a.bytes }

end Draft

end Aoo.Osc
