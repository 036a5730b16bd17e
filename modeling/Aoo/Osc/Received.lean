import Aoo.Osc.Arguments
import Mathlib.Data.List.TakeWhile

/-!
# Received OSC messages

`ReceivedMessage::Init` walks over the type tags of a message once and checks that every argument is
there. Afterwards nothing is checked any more: an iterator has a pointer to the current type tag and one
to the current argument, and moves both.

Pointers are offsets into the bytes that have been received. A read behind these bytes, or
through a null pointer, is a failure of its own (`outOfBounds`), next to the exceptions of the
source.
-/

namespace Aoo.Osc

open Lib

/-! ## Exceptions -/

/-- The texts of `MalformedPacketException`. -/
inductive PacketFault
  | invalidPacketSize
  | zeroLengthElement
  | elementSizeMultipleOfFour
  deriving DecidableEq, Repr

/-- The texts of `MalformedMessageException`. -/
inductive MessageFault
  | invalidMessageSize
  | zeroLengthMessage
  | messageSizeMultipleOfFour
  | unterminatedAddressPattern
  | typeTagsNotPresent
  | typeTagsNotTerminated
  | argumentsExceedMessageSize
  | unterminatedStringArgument
  | unknownTypeTag
  | arrayNotTerminated
  | invalidBlobSize
  deriving DecidableEq, Repr

inductive ReadFailure
  | malformedPacket (w : PacketFault)
  | malformedMessage (w : MessageFault)
  | wrongArgumentType
  | missingArgument
  | outOfBounds
  deriving DecidableEq, Repr

/-! ## Reads -/

def byteAt (m : List UInt8) (p : Nat) : Except ReadFailure UInt8 :=
  match m.drop p with
  | [] => .error .outOfBounds
  | b :: _ => .ok b

def bytesAt (m : List UInt8) (p n : Nat) : Except ReadFailure (List UInt8) :=
  if p + n ≤ m.length then .ok ((m.drop p).take n) else .error .outOfBounds

/-- `ToUInt32`, `ToInt32` -/
def toUInt32 (m : List UInt8) (p : Nat) : Except ReadFailure (BitVec 32) := do
  let bs ← bytesAt m p 4
  return BitVec.ofNat 32 (fromBytes bs)

/-- `ToUInt64`, `ToInt64` -/
def toUInt64 (m : List UInt8) (p : Nat) : Except ReadFailure (BitVec 64) := do
  let bs ← bytesAt m p 8
  return BitVec.ofNat 64 (fromBytes bs)

/-- The length of a str4: only every fourth byte is looked at. -/
def str4Length : List UInt8 → Except ReadFailure Nat
  | _ :: _ :: _ :: b :: bs =>
    if b = 0 then .ok 4 else (str4Length bs).map (· + 4)
  | _ => .error .outOfBounds

/-- The same if the message ends after `n` bytes. -/
def str4LengthUpTo : Nat → List UInt8 → Except ReadFailure (Option Nat)
  | n, _ :: _ :: _ :: b :: bs =>
    if b = 0 then .ok (some 4)
    else if n ≤ 4 then .ok none
    else (str4LengthUpTo (n - 4) bs).map (·.map (· + 4))
  | _, _ => .error .outOfBounds

/-- `FindStr4End(p)` -/
def findStr4End (m : List UInt8) (p : Nat) : Except ReadFailure Nat := do
  let b ← byteAt m p
  if b = 0 then return p + 4
  else return p + (← str4Length (m.drop p))

/-- `FindStr4End(p, end)` -/
def findStr4EndUpTo (m : List UInt8) (p end_ : Nat) : Except ReadFailure (Option Nat) :=
  if end_ ≤ p then .ok none
  else do
    let b ← byteAt m p
    -- an integer address pattern
    if b = 0 then return some (p + 4)
    else return (← str4LengthUpTo (end_ - p) (m.drop p)).map (p + ·)

/-- `RoundUp4`, which starts again at zero behind the largest multiple of four. -/
def roundUp4 (x : BitVec 32) : BitVec 32 := (x + 3) &&& ~~~3

def isValidElementSizeValue (x : Int) : Bool := 0 ≤ x ∧ x ≤ 0x7FFFFFFC

/-! ## Type tags -/

/-- The cases of the `switch` statements. -/
inductive Layout
  | empty
  | arrayBegin
  | arrayEnd
  | fixed (n : Nat)
  | string
  | blob
  | unknown
  deriving DecidableEq, Repr

def layout (tag : UInt8) : Layout :=
  if tag = TRUE_TYPE_TAG ∨ tag = FALSE_TYPE_TAG ∨ tag = NIL_TYPE_TAG ∨ tag = INFINITUM_TYPE_TAG then
    .empty
  else if tag = ARRAY_BEGIN_TYPE_TAG then .arrayBegin
  else if tag = ARRAY_END_TYPE_TAG then .arrayEnd
  else if tag = INT32_TYPE_TAG ∨ tag = FLOAT_TYPE_TAG ∨ tag = CHAR_TYPE_TAG ∨
      tag = RGBA_COLOR_TYPE_TAG ∨ tag = MIDI_MESSAGE_TYPE_TAG then .fixed 4
  else if tag = INT64_TYPE_TAG ∨ tag = TIME_TAG_TYPE_TAG ∨ tag = DOUBLE_TYPE_TAG then .fixed 8
  else if tag = STRING_TYPE_TAG ∨ tag = SYMBOL_TYPE_TAG then .string
  else if tag = BLOB_TYPE_TAG then .blob
  else .unknown

/-! ## `ReceivedMessage` -/

structure ReceivedPacket where
  contents : List UInt8
  size : Int

/-- `ReceivedPacket(contents, size)` with `ValidateSize`. The size is cast to an `int32`. -/
def ReceivedPacket.create (contents : List UInt8) : Except ReadFailure ReceivedPacket :=
  let size := signed (2 ^ 32) contents.length
  if ¬ isValidElementSizeValue size then .error (.malformedPacket .invalidPacketSize)
  else if size = 0 then .error (.malformedPacket .zeroLengthElement)
  else if size % 4 ≠ 0 then .error (.malformedPacket .elementSizeMultipleOfFour)
  else .ok { contents, size }

structure ReceivedMessage where
  typeTagsBegin : Nat
  typeTagsEnd : Nat
  /-- `none` for a null pointer. -/
  arguments : Option Nat

namespace ReceivedMessage

/-- One argument in `Init`: where the next one begins, and the array level. For a blob the
exceptions are made, but not thrown. -/
def initArgument (m : List UInt8) (end_ : Nat) (tag : UInt8) (argument : Nat)
    (arrayLevel : BitVec 32) : Except ReadFailure (Nat × BitVec 32) :=
  match layout tag with
  | .empty => .ok (argument, arrayLevel)
  | .arrayBegin => .ok (argument, arrayLevel + 1)
  | .arrayEnd => .ok (argument, arrayLevel - 1)
  | .fixed n =>
    if argument = end_ then .error (.malformedMessage .argumentsExceedMessageSize)
    else if argument + n > end_ then .error (.malformedMessage .argumentsExceedMessageSize)
    else .ok (argument + n, arrayLevel)
  | .string =>
    if argument = end_ then .error (.malformedMessage .argumentsExceedMessageSize)
    else do
      match ← findStr4EndUpTo m argument end_ with
      | none => .error (.malformedMessage .unterminatedStringArgument)
      | some next => .ok (next, arrayLevel)
  | .blob => do
    let blobSize ← toUInt32 m argument
    return (argument + 4 + (roundUp4 blobSize).toNat, arrayLevel)
  | .unknown => .error (.malformedMessage .unknownTypeTag)

/-- The loop over the bytes from `typeTag` on, up to the first zero: where it stops, and
the array level there. -/
def initArguments (m : List UInt8) (end_ : Nat) :
    List UInt8 → (typeTag argument : Nat) → BitVec 32 → Except ReadFailure (Nat × BitVec 32)
  | tag :: next :: rest, typeTag, argument, arrayLevel => do
    let r ← initArgument m end_ tag argument arrayLevel
    if next = 0 then return (typeTag + 1, r.2)
    else initArguments m end_ (next :: rest) (typeTag + 1) r.1 r.2
  | _, _, _, _ => .error .outOfBounds

/-- A message without arguments: the type tags are at the last byte. -/
def withoutArguments (end_ : Nat) : ReceivedMessage where
  typeTagsBegin := end_ - 1
  typeTagsEnd := end_ - 1
  arguments := none

/-- `Init`, from the type tags on. -/
def initTypeTags (m : List UInt8) (end_ typeTags : Nat) : Except ReadFailure ReceivedMessage := do
  if typeTags = end_ then return withoutArguments end_
  else if (← byteAt m typeTags) ≠ 44 then .error (.malformedMessage .typeTagsNotPresent)
  else if (← byteAt m (typeTags + 1)) = 0 then return withoutArguments end_
  else
    match ← findStr4EndUpTo m typeTags end_ with
    | none => .error (.malformedMessage .typeTagsNotTerminated)
    | some arguments => do
      let r ← initArguments m end_ (m.drop (typeTags + 1)) (typeTags + 1) arguments 0
      if r.2 ≠ 0 then .error (.malformedMessage .arrayNotTerminated)
      else return {
        typeTagsBegin := typeTags + 1
        typeTagsEnd := r.1
        arguments := some arguments }

def init (m : List UInt8) (size : Int) : Except ReadFailure ReceivedMessage :=
  if ¬ isValidElementSizeValue size then .error (.malformedMessage .invalidMessageSize)
  else if size = 0 then .error (.malformedMessage .zeroLengthMessage)
  else if size % 4 ≠ 0 then .error (.malformedMessage .messageSizeMultipleOfFour)
  else do
    match ← findStr4EndUpTo m 0 size.toNat with
    | none => .error (.malformedMessage .unterminatedAddressPattern)
    | some typeTags => initTypeTags m size.toNat typeTags

/-- `ReceivedMessage(ReceivedPacket(data, size))` -/
def receive (data : List UInt8) : Except ReadFailure ReceivedMessage := do
  let packet ← ReceivedPacket.create data
  init packet.contents packet.size

def argumentCount (msg : ReceivedMessage) : Nat := msg.typeTagsEnd - msg.typeTagsBegin

end ReceivedMessage

/-! ## Arguments -/

/-- `ReceivedMessageArgumentIterator` with its `ReceivedMessageArgument`. -/
structure ArgumentIterator where
  typeTagPtr : Nat
  argumentPtr : Option Nat

def ReceivedMessage.argumentsBegin (msg : ReceivedMessage) : ArgumentIterator :=
  ⟨msg.typeTagsBegin, msg.arguments⟩

theorem takeWhile_noZero (bs : List UInt8) : 0 ∉ bs.takeWhile (· ≠ 0) := by
  intro h
  have hne := List.mem_takeWhile_imp h
  exact of_decide_eq_true hne rfl

/-- The C string at a pointer, which a caller reads up to its zero byte. -/
def cString (m : List UInt8) (p : Nat) : Except ReadFailure CString :=
  if 0 ∈ m.drop p then .ok ⟨(m.drop p).takeWhile (· ≠ 0), takeWhile_noZero _⟩
  else .error .outOfBounds

namespace ArgumentIterator

variable (m : List UInt8) (it : ArgumentIterator)

/-- Follows the argument pointer. -/
def pointer : Except ReadFailure Nat :=
  match it.argumentPtr with
  | none => .error .outOfBounds
  | some p => .ok p

/-- `Advance` -/
def advance : Except ReadFailure ArgumentIterator := do
  let tag ← byteAt m it.typeTagPtr
  match layout tag with
  -- don't advance past end, nor past an unknown type tag
  | .unknown => return it
  | .empty | .arrayBegin | .arrayEnd => return { it with typeTagPtr := it.typeTagPtr + 1 }
  | .fixed n =>
    let argument ← it.pointer
    return ⟨it.typeTagPtr + 1, some (argument + n)⟩
  | .string =>
    let argument ← it.pointer
    let next ← findStr4End m argument
    return ⟨it.typeTagPtr + 1, some next⟩
  | .blob =>
    let argument ← it.pointer
    let blobSize ← toUInt32 m argument
    return ⟨it.typeTagPtr + 1, some (argument + 4 + (roundUp4 blobSize).toNat)⟩

/-- What the conversions start with. -/
def checkTypeTag (tag : UInt8) : Except ReadFailure Unit := do
  let typeTag ← byteAt m it.typeTagPtr
  if typeTag = 0 then .error .missingArgument
  else if typeTag = tag then .ok ()
  else .error .wrongArgumentType

def asBool : Except ReadFailure Bool := do
  let typeTag ← byteAt m it.typeTagPtr
  if typeTag = 0 then .error .missingArgument
  else if typeTag = TRUE_TYPE_TAG then return true
  else if typeTag = FALSE_TYPE_TAG then return false
  else .error .wrongArgumentType

def as32 (tag : UInt8) : Except ReadFailure (BitVec 32) := do
  it.checkTypeTag m tag
  toUInt32 m (← it.pointer)

def as64 (tag : UInt8) : Except ReadFailure (BitVec 64) := do
  it.checkTypeTag m tag
  toUInt64 m (← it.pointer)

def asInt32 : Except ReadFailure (BitVec 32) := it.as32 m INT32_TYPE_TAG
def asFloat : Except ReadFailure (BitVec 32) := it.as32 m FLOAT_TYPE_TAG
def asRgbaColor : Except ReadFailure (BitVec 32) := it.as32 m RGBA_COLOR_TYPE_TAG
def asMidiMessage : Except ReadFailure (BitVec 32) := it.as32 m MIDI_MESSAGE_TYPE_TAG
def asInt64 : Except ReadFailure (BitVec 64) := it.as64 m INT64_TYPE_TAG
def asTimeTag : Except ReadFailure (BitVec 64) := it.as64 m TIME_TAG_TYPE_TAG
def asDouble : Except ReadFailure (BitVec 64) := it.as64 m DOUBLE_TYPE_TAG

/-- The cast to `char` keeps the low byte. -/
def asChar : Except ReadFailure (BitVec 8) := do
  return (← it.as32 m CHAR_TYPE_TAG).setWidth 8

/-- The pointer to the string. -/
def asStr4 (tag : UInt8) : Except ReadFailure Nat := do
  it.checkTypeTag m tag
  it.pointer

def asString : Except ReadFailure Nat := it.asStr4 m STRING_TYPE_TAG
def asSymbol : Except ReadFailure Nat := it.asStr4 m SYMBOL_TYPE_TAG

/-- The pointer to the data, and the size. -/
def asBlob : Except ReadFailure (Nat × Nat) := do
  it.checkTypeTag m BLOB_TYPE_TAG
  let argument ← it.pointer
  let size := (← toUInt32 m argument).toInt
  if ¬ isValidElementSizeValue size then .error (.malformedMessage .invalidBlobSize)
  else return (argument + 4, size.toNat)

end ArgumentIterator

/-! ## Handlers -/

/-- The conversions. -/
inductive Conversion
  | bool | int32 | float | char | rgbaColor | midiMessage | int64 | timeTag | double
  | string | symbol | blob
  deriving DecidableEq, Repr

/-- The converted argument. The pointer to a string or a blob is followed. -/
def ArgumentIterator.read (m : List UInt8) (it : ArgumentIterator) :
    Conversion → Except ReadFailure Arg
  | .bool => do return .bool (← it.asBool m)
  | .int32 => do return .int32 (← it.asInt32 m)
  | .float => do return .float (← it.asFloat m)
  | .char => do return .char (← it.asChar m)
  | .rgbaColor => do return .rgbaColor (← it.asRgbaColor m)
  | .midiMessage => do return .midiMessage (← it.asMidiMessage m)
  | .int64 => do return .int64 (← it.asInt64 m)
  | .timeTag => do return .timeTag (← it.asTimeTag m)
  | .double => do return .double (← it.asDouble m)
  | .string => do return .string (← cString m (← it.asString m))
  | .symbol => do return .symbol (← cString m (← it.asSymbol m))
  | .blob => do
    let data ← it.asBlob m
    return .blob (← bytesAt m data.1 data.2)

/-- What a handler does with its iterator: `(it++)->As...()`, `it++`, `it->TypeTag()`,
`it != msg.ArgumentsEnd()`. -/
inductive Access
  | next (c : Conversion)
  | skip
  | typeTag
  | notAtEnd

/-- What it sees. -/
inductive Seen
  | arg (a : Arg)
  | tag (tag : UInt8)
  | more (b : Bool)
  | nothing

/-- The iterator moves before the argument is converted. -/
def ReceivedMessage.access (m : List UInt8) (msg : ReceivedMessage) (it : ArgumentIterator) :
    Access → Except ReadFailure (Seen × ArgumentIterator)
  | .next c => do
    let it' ← it.advance m
    return (.arg (← it.read m c), it')
  | .skip => do return (.nothing, ← it.advance m)
  | .typeTag => do return (.tag (← byteAt m it.typeTagPtr), it)
  | .notAtEnd => .ok (.more (it.typeTagPtr ≠ msg.typeTagsEnd), it)

/-- A handler goes over the arguments, up to the first exception. -/
def ReceivedMessage.handle (m : List UInt8) (msg : ReceivedMessage) :
    ArgumentIterator → List Access → Except ReadFailure (List Seen)
  | _, [] => .ok []
  | it, a :: as => do
    let r ← msg.access m it a
    return r.1 :: (← msg.handle m r.2 as)

end Aoo.Osc
