import Aoo.Binmsg

/-!
# OSC arguments

The arguments of an OSC message as `oscpack` writes them: a type tag, which goes into the
type tag string, and a number of bytes that is a multiple of four. Numbers are big-endian;
a string ends with at least one zero byte, a blob has its size in front.

`MessageText` is what a message is on the wire: the address pattern, a comma with the type tags, and
the arguments.
-/

namespace Aoo.Osc

open Lib

/-- A C string: the bytes in front of the zero byte. -/
structure CString where
  bytes : List UInt8
  noZero : 0 ∉ bytes

/-- `"/a"` is a C string. -/
theorem slashA_noZero : 0 ∉ ([47, 97] : List UInt8) := by decide

/-- What can be streamed into a message. Numbers are kept as bit patterns, also those with a
floating point; `char` is signed. -/
inductive Arg
  | bool (b : Bool)
  | nil
  | infinitum
  | int32 (v : BitVec 32)
  | float (v : BitVec 32)
  | char (c : BitVec 8)
  | rgbaColor (v : BitVec 32)
  | midiMessage (v : BitVec 32)
  | int64 (v : BitVec 64)
  | timeTag (v : BitVec 64)
  | double (v : BitVec 64)
  | string (s : CString)
  | symbol (s : CString)
  | blob (data : List UInt8)
  | arrayBegin
  | arrayEnd

/-! ## Type tags -/

def TRUE_TYPE_TAG : UInt8 := 84
def FALSE_TYPE_TAG : UInt8 := 70
def NIL_TYPE_TAG : UInt8 := 78
def INFINITUM_TYPE_TAG : UInt8 := 73
def INT32_TYPE_TAG : UInt8 := 105
def FLOAT_TYPE_TAG : UInt8 := 102
def CHAR_TYPE_TAG : UInt8 := 99
def RGBA_COLOR_TYPE_TAG : UInt8 := 114
def MIDI_MESSAGE_TYPE_TAG : UInt8 := 109
def INT64_TYPE_TAG : UInt8 := 104
def TIME_TAG_TYPE_TAG : UInt8 := 116
def DOUBLE_TYPE_TAG : UInt8 := 100
def STRING_TYPE_TAG : UInt8 := 115
def SYMBOL_TYPE_TAG : UInt8 := 83
def BLOB_TYPE_TAG : UInt8 := 98
def ARRAY_BEGIN_TYPE_TAG : UInt8 := 91
def ARRAY_END_TYPE_TAG : UInt8 := 93

def Arg.tag : Arg → UInt8
  | .bool true => TRUE_TYPE_TAG
  | .bool false => FALSE_TYPE_TAG
  | .nil => NIL_TYPE_TAG
  | .infinitum => INFINITUM_TYPE_TAG
  | .int32 _ => INT32_TYPE_TAG
  | .float _ => FLOAT_TYPE_TAG
  | .char _ => CHAR_TYPE_TAG
  | .rgbaColor _ => RGBA_COLOR_TYPE_TAG
  | .midiMessage _ => MIDI_MESSAGE_TYPE_TAG
  | .int64 _ => INT64_TYPE_TAG
  | .timeTag _ => TIME_TAG_TYPE_TAG
  | .double _ => DOUBLE_TYPE_TAG
  | .string _ => STRING_TYPE_TAG
  | .symbol _ => SYMBOL_TYPE_TAG
  | .blob _ => BLOB_TYPE_TAG
  | .arrayBegin => ARRAY_BEGIN_TYPE_TAG
  | .arrayEnd => ARRAY_END_TYPE_TAG

/-! ## Bytes -/

/-- Zero bytes up to the next multiple of four. -/
def zeroPad (bs : List UInt8) : List UInt8 := bs ++ List.replicate (pad4 bs.length - bs.length) 0

/-- A string with its zero byte, padded. -/
def CString.padded (s : CString) : List UInt8 := zeroPad (s.bytes ++ [0])

/-- `FromInt32`, `FromUInt32` -/
def fromUInt32 (v : BitVec 32) : List UInt8 := toBytes 4 v.toNat

/-- `FromInt64`, `FromUInt64` -/
def fromUInt64 (v : BitVec 64) : List UInt8 := toBytes 8 v.toNat

/-- What an argument puts behind the arguments that are there. -/
def Arg.bytes : Arg → List UInt8
  | .int32 v | .float v | .rgbaColor v | .midiMessage v => fromUInt32 v
  | .char c => fromUInt32 (c.signExtend 32)
  | .int64 v | .timeTag v | .double v => fromUInt64 v
  | .string s | .symbol s => s.padded
  | .blob data => toBytes 4 data.length ++ zeroPad data
  | .bool _ | .nil | .infinitum | .arrayBegin | .arrayEnd => []

/-- The type tag string, with its comma and at least one zero byte. -/
def tagString (tags : List UInt8) : List UInt8 := zeroPad (44 :: tags ++ [0])

/-- A message with the type tags `tags` and the bytes `args` of its arguments. -/
def messageBytes (address : CString) (tags args : List UInt8) : List UInt8 :=
  address.padded ++ tagString tags ++ args

/-- A message on the wire. -/
def messageText (address : CString) (args : List Arg) : List UInt8 :=
  messageBytes address (args.map Arg.tag) (args.flatMap Arg.bytes)

/-! ## Sizes -/

/-- Padding takes nothing away. -/
theorem le_pad4 (n : Nat) : n ≤ pad4 n := by
  unfold pad4
  omega

theorem pad4_dvd (n : Nat) : 4 ∣ pad4 n := Nat.dvd_mul_left 4 _

/-- Zeros are added up to the next multiple of four. -/
theorem zeroPad_length (bs : List UInt8) : (zeroPad bs).length = pad4 bs.length := by
  have hle := le_pad4 bs.length
  rw [zeroPad, List.length_append, List.length_replicate]
  omega

/-- A text is padded with its terminator. -/
theorem CString.padded_length (s : CString) : s.padded.length = pad4 (s.bytes.length + 1) := by
  rw [padded, zeroPad_length, List.length_append, List.length_singleton]

/-- The type tags stand behind a comma and in front of a zero. -/
theorem tagString_length (tags : List UInt8) : (tagString tags).length = pad4 (tags.length + 2) := by
  rw [tagString, zeroPad_length, List.length_append, List.length_singleton, List.length_cons]

theorem fromUInt32_length (v : BitVec 32) : (fromUInt32 v).length = 4 := toBytes_length ..

theorem fromUInt64_length (v : BitVec 64) : (fromUInt64 v).length = 8 := toBytes_length ..

/-- `argumentLength`: what `CheckForAvailableArgumentSpace` is called with. -/
def Arg.size : Arg → Nat
  | .int32 _ | .float _ | .rgbaColor _ | .midiMessage _ | .char _ => 4
  | .int64 _ | .timeTag _ | .double _ => 8
  | .string s | .symbol s => pad4 (s.bytes.length + 1)
  | .blob data => 4 + pad4 data.length
  | .bool _ | .nil | .infinitum | .arrayBegin | .arrayEnd => 0

/-- Every operator asks for exactly what it writes. -/
theorem Arg.bytes_length (a : Arg) : a.bytes.length = a.size := by
  cases a with
  | string s => exact s.padded_length
  | symbol s => exact s.padded_length
  | blob data =>
    show (toBytes 4 data.length ++ zeroPad data).length = 4 + pad4 data.length
    rw [List.length_append, toBytes_length, zeroPad_length]
  | int64 v => exact fromUInt64_length v
  | timeTag v => exact fromUInt64_length v
  | double v => exact fromUInt64_length v
  | int32 v => exact fromUInt32_length v
  | float v => exact fromUInt32_length v
  | char c => exact fromUInt32_length _
  | rgbaColor v => exact fromUInt32_length v
  | midiMessage v => exact fromUInt32_length v
  | _ => rfl

/-- Every argument takes a multiple of four bytes. -/
theorem Arg.size_dvd (a : Arg) : 4 ∣ a.size := by
  cases a with
  | string s => exact pad4_dvd _
  | symbol s => exact pad4_dvd _
  | blob data => exact Nat.dvd_add (Nat.dvd_refl 4) (pad4_dvd _)
  | int64 v => exact ⟨2, rfl⟩
  | timeTag v => exact ⟨2, rfl⟩
  | double v => exact ⟨2, rfl⟩
  | int32 v => exact Nat.dvd_refl 4
  | float v => exact Nat.dvd_refl 4
  | char c => exact Nat.dvd_refl 4
  | rgbaColor v => exact Nat.dvd_refl 4
  | midiMessage v => exact Nat.dvd_refl 4
  | _ => exact Nat.dvd_zero 4

/-- The arguments take what their sizes say. -/
theorem flatMap_bytes_length (args : List Arg) :
    (args.flatMap Arg.bytes).length = (args.map Arg.size).sum := by
  induction args with
  | nil => rfl
  | cons a args ih =>
    rw [List.flatMap_cons, List.length_append, ih, a.bytes_length, List.map_cons, List.sum_cons]

/-- The parts of a message behind one another. -/
theorem messageBytes_length (address : CString) (tags args : List UInt8) :
    (messageBytes address tags args).length =
      pad4 (address.bytes.length + 1) + pad4 (tags.length + 2) + args.length := by
  rw [messageBytes, List.length_append, List.length_append, address.padded_length, tagString_length]

/-- The size of a message from its address and arguments. -/
theorem messageText_length (address : CString) (args : List Arg) :
    (messageText address args).length =
      pad4 (address.bytes.length + 1) + pad4 (args.length + 2) + (args.map Arg.size).sum := by
  rw [messageText, messageBytes_length, List.length_map, flatMap_bytes_length]

end Aoo.Osc
