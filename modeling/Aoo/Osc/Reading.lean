import Aoo.Osc.Received
import Mathlib.Data.List.Count

/-!
# What is read from a message

A handler that goes over a received message sees the arguments that have been put into it, whatever
it does with its iterator (`message_received`): each conversion gives back the argument, or
throws `WrongArgumentTypeException` if it does not belong to its type tag, and after the last
argument every conversion throws `MissingArgumentException`.

The steps are stated about `m.drop p`, the bytes from a pointer on: when they begin with the
bytes of an argument, then `Init`, `Advance` and the conversion that fits do the right thing there, and
behind it are the bytes of the next one.
-/

namespace Aoo.Osc

open Lib

variable {m bs rest : List UInt8} {p : Nat}

/-! ## Reads -/

/-- Behind what has been read comes the rest. -/
theorem drop_past (h : m.drop p = bs ++ rest) : m.drop (p + bs.length) = rest := by
  rw [← List.drop_drop, h, List.drop_left]

/-- Behind a byte comes the next. -/
theorem drop_succ {b : UInt8} (h : m.drop p = b :: rest) : m.drop (p + 1) = rest :=
  @drop_past m [b] rest p h

/-- A byte inside the message can be read. -/
theorem byteAt_of_drop {b : UInt8} (h : m.drop p = b :: rest) : byteAt m p = .ok b := by
  rw [byteAt, h]

/-- So can a run of bytes. -/
theorem bytesAt_of_drop (hp : p ≤ m.length) (h : m.drop p = bs ++ rest) :
    bytesAt m p bs.length = .ok bs := by
  have hlength := congrArg List.length h
  rw [List.length_drop, List.length_append] at hlength
  rw [bytesAt, if_pos (by omega), h, List.take_left]

/-- Where something is left, the position is inside. -/
theorem le_length_of_drop (hbs : bs ≠ []) (h : m.drop p = bs ++ rest) : p ≤ m.length := by
  have hlength := congrArg List.length h
  have hpos := List.length_pos_iff.mpr hbs
  rw [List.length_drop, List.length_append] at hlength
  omega

/-- `ToUInt32` reads what `FromUInt32` has written. -/
theorem toUInt32_of_drop {v : BitVec 32} (h : m.drop p = fromUInt32 v ++ rest) :
    toUInt32 m p = .ok v := by
  have hp := le_length_of_drop (List.ne_nil_of_length_pos (by rw [fromUInt32_length]; omega)) h
  have hbytes := bytesAt_of_drop hp h
  rw [fromUInt32_length] at hbytes
  rw [toUInt32, hbytes]
  show Except.ok (BitVec.ofNat 32 (fromBytes (toBytes 4 v.toNat))) = _
  rw [fromBytes_toBytes, Nat.mod_eq_of_lt (show v.toNat < 256 ^ 4 from v.isLt),
    BitVec.ofNat_toNat, BitVec.setWidth_eq]

/-- `ToUInt64` reads what `FromUInt64` has written. -/
theorem toUInt64_of_drop {v : BitVec 64} (h : m.drop p = fromUInt64 v ++ rest) :
    toUInt64 m p = .ok v := by
  have hp := le_length_of_drop (List.ne_nil_of_length_pos (by rw [fromUInt64_length]; omega)) h
  have hbytes := bytesAt_of_drop hp h
  rw [fromUInt64_length] at hbytes
  rw [toUInt64, hbytes]
  show Except.ok (BitVec.ofNat 64 (fromBytes (toBytes 8 v.toNat))) = _
  rw [fromBytes_toBytes, Nat.mod_eq_of_lt (show v.toNat < 256 ^ 8 from v.isLt),
    BitVec.ofNat_toNat, BitVec.setWidth_eq]

/-! ### Strings -/

/-- Induction in steps of four bytes. -/
theorem four_induction {P : List UInt8 → Prop} (short : ∀ bs, bs.length < 4 → P bs)
    (long : ∀ a b c d bs, P bs → P (a :: b :: c :: d :: bs)) (bs : List UInt8) : P bs := by
  induction hn : bs.length using Nat.strongRecOn generalizing bs with
  | ind n ih =>
    rcases bs with _ | ⟨a, _ | ⟨b, _ | ⟨c, _ | ⟨d, bs⟩⟩⟩⟩
    · exact short [] (Nat.succ_pos 3)
    · exact short [a] (by simp)
    · exact short [a, b] (by simp)
    · exact short [a, b, c] (by simp)
    · refine long a b c d bs (ih bs.length ?_ bs rfl)
      rw [← hn]
      simp only [List.length_cons]
      omega

/-- Padding is done four bytes at a time. -/
theorem zeroPad_four (a b c d : UInt8) (bs : List UInt8) :
    zeroPad (a :: b :: c :: d :: bs) = a :: b :: c :: d :: zeroPad bs := by
  have hpad : pad4 (bs.length + 1 + 1 + 1 + 1) - (bs.length + 1 + 1 + 1 + 1) =
      pad4 bs.length - bs.length := by
    unfold pad4
    omega
  unfold zeroPad
  rw [List.length_cons, List.length_cons, List.length_cons, List.length_cons, hpad]
  rfl

/-- A string of less than four bytes ends with the fourth one. -/
theorem zeroPad_short {bs : List UInt8} (h : bs.length < 4) :
    ∃ a b c, zeroPad (bs ++ [0]) = [a, b, c, 0] := by
  rcases bs with _ | ⟨a, _ | ⟨b, _ | ⟨c, _ | ⟨d, bs⟩⟩⟩⟩
  · exact ⟨0, 0, 0, rfl⟩
  · exact ⟨a, 0, 0, by simp [zeroPad, pad4]⟩
  · exact ⟨a, b, 0, by simp [zeroPad, pad4]⟩
  · exact ⟨a, b, c, by simp [zeroPad, pad4]⟩
  · simp only [List.length_cons] at h
    omega

/-- Every fourth byte of a string is not zero, up to the last one. -/
theorem str4Length_padded (rest : List UInt8) {bs : List UInt8} (h : 0 ∉ bs) :
    str4Length (zeroPad (bs ++ [0]) ++ rest) = .ok (zeroPad (bs ++ [0])).length := by
  induction bs using four_induction with
  | short bs hshort =>
    obtain ⟨a, b, c, heq⟩ := zeroPad_short hshort
    rw [heq]
    rfl
  | long a b c d bs ih =>
    have hd : d ≠ 0 := fun hd => h (by simp [hd])
    have hbs : 0 ∉ bs := fun hbs => h (by simp [hbs])
    simp only [List.cons_append, zeroPad_four, str4Length, if_neg hd, ih hbs]
    rfl

/-- The end of a string is the zero at the end of four bytes. -/
theorem str4LengthUpTo_padded (rest : List UInt8) {bs : List UInt8} {n : Nat} (h : 0 ∉ bs)
    (hn : (zeroPad (bs ++ [0])).length ≤ n) :
    str4LengthUpTo n (zeroPad (bs ++ [0]) ++ rest) = .ok (some (zeroPad (bs ++ [0])).length) := by
  induction bs using four_induction generalizing n with
  | short bs hshort =>
    obtain ⟨a, b, c, heq⟩ := zeroPad_short hshort
    rw [heq]
    rfl
  | long a b c d bs ih =>
    have hd : d ≠ 0 := fun hd => h (by simp [hd])
    have hbs : 0 ∉ bs := fun hbs => h (by simp [hbs])
    have hpos := le_pad4 (bs ++ [0]).length
    rw [← zeroPad_length, List.length_append, List.length_singleton] at hpos
    simp only [List.cons_append, zeroPad_four, List.length_cons] at hn ⊢
    rw [str4LengthUpTo, if_neg hd, if_neg (by omega), ih hbs (by omega)]
    rfl

/-- A padded string is never empty. -/
theorem CString.padded_cons (s : CString) :
    ∃ b bs, s.padded = b :: bs ∧ (b = 0 → s.padded.length = 4) := by
  rcases hs : s.bytes with _ | ⟨b, bs⟩
  · refine ⟨0, [0, 0, 0], ?_, fun _ => ?_⟩
    · rw [padded, hs]
      rfl
    · rw [padded, hs]
      rfl
  · have hb : b ≠ 0 := fun hb => s.noZero (by rw [hs, hb]; exact List.mem_cons_self)
    refine ⟨b, bs ++ [0] ++ List.replicate (pad4 (b :: bs ++ [0]).length - (b :: bs ++ [0]).length) 0,
      ?_, fun hzero => absurd hzero hb⟩
    rw [padded, hs]
    rfl

/-- `FindStr4End(p)` -/
theorem findStr4End_padded (s : CString) (h : m.drop p = s.padded ++ rest) :
    findStr4End m p = .ok (p + s.padded.length) := by
  obtain ⟨b, bs, hcons, hempty⟩ := s.padded_cons
  have hbyte : byteAt m p = .ok b := byteAt_of_drop (h.trans (by rw [hcons]; rfl))
  rw [findStr4End, hbyte, h, CString.padded, str4Length_padded rest s.noZero]
  simp only [bind, Except.bind, pure, Except.pure]
  split
  next hb => exact congrArg (fun n => Except.ok (p + n)) (hempty hb).symm
  next => rfl

/-- `FindStr4End(p, end)` -/
theorem findStr4EndUpTo_padded (s : CString) {end_ : Nat} (h : m.drop p = s.padded ++ rest)
    (hend : p + s.padded.length ≤ end_) :
    findStr4EndUpTo m p end_ = .ok (some (p + s.padded.length)) := by
  obtain ⟨b, bs, hcons, hempty⟩ := s.padded_cons
  have hpos : 0 < s.padded.length := by
    rw [hcons]
    exact Nat.succ_pos _
  have hbyte : byteAt m p = .ok b := byteAt_of_drop (h.trans (by rw [hcons]; rfl))
  rw [findStr4EndUpTo, if_neg (by omega), hbyte, h, CString.padded,
    str4LengthUpTo_padded rest s.noZero (by rw [← CString.padded]; omega)]
  simp only [bind, Except.bind, pure, Except.pure]
  split
  next hb => exact congrArg (fun n => Except.ok (some (p + n))) (hempty hb).symm
  next => rfl

/-- A string is read up to its zero. -/
theorem cString_padded (s : CString) (h : m.drop p = s.padded ++ rest) : cString m p = .ok s := by
  have hpadded : m.drop p = s.bytes ++ 0 :: (List.replicate
      (pad4 (s.bytes ++ [0]).length - (s.bytes ++ [0]).length) 0 ++ rest) := by
    rw [h, CString.padded, zeroPad]
    simp only [List.append_assoc, List.cons_append, List.nil_append]
  have hzero : 0 ∈ m.drop p := by
    rw [hpadded]
    exact List.mem_append_right _ List.mem_cons_self
  have htake : (m.drop p).takeWhile (· ≠ 0) = s.bytes := by
    rw [hpadded, List.takeWhile_append_of_pos fun b hb => ?_, List.takeWhile_cons_of_neg (by simp),
      List.append_nil]
    exact decide_eq_true fun hb0 => s.noZero (hb0 ▸ hb)
  rw [cString, if_pos hzero]
  cases s
  simp only [htake]

/-! ## Arguments -/

/-- The mask of `RoundUp4` clears the two lowest bits. -/
theorem getElem_not_three :
    ∀ i : Fin 32, (~~~(3 : BitVec 32))[i.val] = decide (2 ≤ i.val) := by
  decide

/-- With it a number is rounded down to a multiple of four. -/
theorem toNat_and_not_three (x : BitVec 32) :
    (x &&& ~~~(3 : BitVec 32)).toNat = x.toNat / 4 * 4 := by
  have hshift : x &&& ~~~(3 : BitVec 32) = (x >>> 2) <<< 2 := by
    ext i hi
    rw [BitVec.getElem_and, getElem_not_three ⟨i, hi⟩, BitVec.getElem_shiftLeft,
      BitVec.getElem_ushiftRight]
    by_cases h2 : 2 ≤ i
    · simp [h2, Nat.not_lt.mpr h2, ← BitVec.getLsbD_eq_getElem]
    · simp [h2, Nat.lt_of_not_le h2]
  have hle := Nat.div_mul_le_self x.toNat 4
  rw [hshift, BitVec.toNat_shiftLeft, BitVec.toNat_ushiftRight, Nat.shiftRight_eq_div_pow,
    Nat.shiftLeft_eq, Nat.mod_eq_of_lt (Nat.lt_of_le_of_lt hle x.isLt)]

/-- `RoundUp4` does not wrap below the largest length. -/
theorem roundUp4_toNat {x : BitVec 32} (h : x.toNat ≤ 0x7FFFFFFC) :
    (roundUp4 x).toNat = pad4 x.toNat := by
  rw [roundUp4, toNat_and_not_three, BitVec.toNat_add, Nat.mod_eq_of_lt (show _ < _ by
    rw [show (3 : BitVec 32).toNat = 3 from rfl]
    omega)]
  rfl

/-- How an argument is laid out. -/
def Arg.layout : Arg → Layout
  | .bool _ | .nil | .infinitum => .empty
  | .arrayBegin => .arrayBegin
  | .arrayEnd => .arrayEnd
  | .int32 _ | .float _ | .char _ | .rgbaColor _ | .midiMessage _ => .fixed 4
  | .int64 _ | .timeTag _ | .double _ => .fixed 8
  | .string _ | .symbol _ => .string
  | .blob _ => .blob

/-- The tag tells how the argument is laid out. -/
theorem layout_tag (a : Arg) : layout a.tag = a.layout := by
  cases a with
  | bool b => cases b <;> rfl
  | _ => rfl

/-- No tag is the zero that ends the tags. -/
theorem Arg.tag_ne_zero (a : Arg) : a.tag ≠ 0 := by
  intro h
  have hlayout := layout_tag a
  rw [h, show Osc.layout 0 = .unknown from rfl] at hlayout
  cases a <;> cases hlayout

theorem blob_length_le (data : List UInt8) : data.length ≤ (Arg.blob data).size :=
  (le_pad4 data.length).trans (Nat.le_add_left _ 4)

/-- The size of a blob. -/
theorem toUInt32_blob {data : List UInt8} (hdata : data.length ≤ 0x7FFFFFFC)
    (h : m.drop p = (Arg.blob data).bytes ++ rest) :
    toUInt32 m p = .ok (BitVec.ofNat 32 data.length) := by
  have hsize : fromUInt32 (BitVec.ofNat 32 data.length) = toBytes 4 data.length := by
    rw [fromUInt32, BitVec.toNat_ofNat, Nat.mod_eq_of_lt (by omega)]
  apply toUInt32_of_drop
  rw [h, hsize, Arg.bytes, List.append_assoc]

/-- The next argument starts behind the padding of a blob. -/
theorem blob_next {data : List UInt8} (hdata : data.length ≤ 0x7FFFFFFC) :
    p + 4 + (roundUp4 (BitVec.ofNat 32 data.length)).toNat = p + (Arg.blob data).size := by
  have hlength : (BitVec.ofNat 32 data.length).toNat = data.length := by
    rw [BitVec.toNat_ofNat, Nat.mod_eq_of_lt (by omega)]
  rw [roundUp4_toNat (hlength.symm ▸ hdata), hlength, Arg.size]
  omega

/-- The array level after an argument. -/
def Arg.level (arrayLevel : BitVec 32) : Arg → BitVec 32
  | .arrayBegin => arrayLevel + 1
  | .arrayEnd => arrayLevel - 1
  | _ => arrayLevel

/-- **`Init` finds the next argument**. -/
theorem initArgument_arg (a : Arg) {end_ : Nat} {arrayLevel : BitVec 32}
    (h : m.drop p = a.bytes ++ rest) (hend : p + a.size ≤ end_) (hsize : a.size ≤ 0x7FFFFFFC) :
    ReceivedMessage.initArgument m end_ a.tag p arrayLevel = .ok (p + a.size, a.level arrayLevel) := by
  have hlayout := layout_tag a
  unfold ReceivedMessage.initArgument
  rw [hlayout]
  cases a with
  | blob data =>
    have hdata := (blob_length_le data).trans hsize
    dsimp only [Arg.layout]
    rw [toUInt32_blob hdata h]
    exact congrArg (fun q => Except.ok (q, arrayLevel)) (blob_next hdata)
  | string s | symbol s =>
    have hpadded : s.padded.length = pad4 (s.bytes.length + 1) := s.padded_length
    have hpos := le_pad4 (s.bytes.length + 1)
    rw [Arg.size] at hend
    dsimp only [Arg.layout]
    rw [if_neg (by omega), findStr4EndUpTo_padded s h (hpadded ▸ hend), hpadded]
    rfl
  | int32 _ | float _ | char _ | rgbaColor _ | midiMessage _ | int64 _ | timeTag _ | double _ =>
    rw [Arg.size] at hend
    exact (if_neg (by omega)).trans (if_neg (by omega))
  | bool _ | nil | infinitum | arrayBegin | arrayEnd => rfl

/-- **`Advance` goes to the next argument**, without looking where the message ends. -/
theorem advance_arg (a : Arg) {it : ArgumentIterator} {tags : List UInt8}
    (htag : m.drop it.typeTagPtr = a.tag :: tags) (hpointer : it.argumentPtr = some p)
    (h : m.drop p = a.bytes ++ rest) (hsize : a.size ≤ 0x7FFFFFFC) :
    it.advance m = .ok ⟨it.typeTagPtr + 1, some (p + a.size)⟩ := by
  have hpointer' : it.pointer = .ok p := by rw [ArgumentIterator.pointer, hpointer]
  have hlayout := layout_tag a
  unfold ArgumentIterator.advance
  rw [byteAt_of_drop htag]
  simp only [bind, Except.bind, pure, Except.pure, hlayout]
  cases a with
  | blob data =>
    have hdata := (blob_length_le data).trans hsize
    simp only [Arg.layout, hpointer', toUInt32_blob hdata h, blob_next hdata]
  | string s | symbol s =>
    simp only [Arg.layout, hpointer', findStr4End_padded s h, s.padded_length]
    rfl
  | int32 _ | float _ | char _ | rgbaColor _ | midiMessage _ | int64 _ | timeTag _ | double _ =>
    simp only [Arg.layout, hpointer']
    rfl
  | bool _ | nil | infinitum | arrayBegin | arrayEnd =>
    simp only [Arg.layout, hpointer]
    rfl

/-- The conversion that belongs to an argument, if there is one. -/
def Arg.conversion : Arg → Option Conversion
  | .bool _ => some .bool
  | .int32 _ => some .int32
  | .float _ => some .float
  | .char _ => some .char
  | .rgbaColor _ => some .rgbaColor
  | .midiMessage _ => some .midiMessage
  | .int64 _ => some .int64
  | .timeTag _ => some .timeTag
  | .double _ => some .double
  | .string _ => some .string
  | .symbol _ => some .symbol
  | .blob _ => some .blob
  | .nil | .infinitum | .arrayBegin | .arrayEnd => none

/-- The type tag of a conversion. `AsBool` has two. -/
def Conversion.tag : Conversion → UInt8
  | .bool => TRUE_TYPE_TAG
  | .int32 => INT32_TYPE_TAG
  | .float => FLOAT_TYPE_TAG
  | .char => CHAR_TYPE_TAG
  | .rgbaColor => RGBA_COLOR_TYPE_TAG
  | .midiMessage => MIDI_MESSAGE_TYPE_TAG
  | .int64 => INT64_TYPE_TAG
  | .timeTag => TIME_TAG_TYPE_TAG
  | .double => DOUBLE_TYPE_TAG
  | .string => STRING_TYPE_TAG
  | .symbol => SYMBOL_TYPE_TAG
  | .blob => BLOB_TYPE_TAG

/-- The conversion for a type tag. -/
def Conversion.ofTag (tag : UInt8) : Option Conversion :=
  if tag = TRUE_TYPE_TAG ∨ tag = FALSE_TYPE_TAG then some .bool
  else if tag = INT32_TYPE_TAG then some .int32
  else if tag = FLOAT_TYPE_TAG then some .float
  else if tag = CHAR_TYPE_TAG then some .char
  else if tag = RGBA_COLOR_TYPE_TAG then some .rgbaColor
  else if tag = MIDI_MESSAGE_TYPE_TAG then some .midiMessage
  else if tag = INT64_TYPE_TAG then some .int64
  else if tag = TIME_TAG_TYPE_TAG then some .timeTag
  else if tag = DOUBLE_TYPE_TAG then some .double
  else if tag = STRING_TYPE_TAG then some .string
  else if tag = SYMBOL_TYPE_TAG then some .symbol
  else if tag = BLOB_TYPE_TAG then some .blob
  else none

/-- Each conversion has a tag of its own. -/
theorem Conversion.ofTag_tag (c : Conversion) : ofTag c.tag = some c := by
  cases c <;> rfl

/-- The tag of an argument tells its conversion. -/
theorem ofTag_arg (a : Arg) : Conversion.ofTag a.tag = a.conversion := by
  cases a with
  | bool b => cases b <;> rfl
  | _ => rfl

section Read

variable {a : Arg} {c : Conversion} {it : ArgumentIterator} {tags : List UInt8}

/-- Other conversions ask for other tags. -/
theorem tag_ne_of_conversion (hc : a.conversion ≠ some c) : a.tag ≠ c.tag := by
  intro htag
  rw [← ofTag_arg, htag] at hc
  exact hc c.ofTag_tag

/-- A conversion looks at the tag first, and throws for another type. -/
theorem checkTypeTag_of_drop (htag : m.drop it.typeTagPtr = a.tag :: tags) (tag : UInt8) :
    it.checkTypeTag m tag = if a.tag = tag then .ok () else .error .wrongArgumentType := by
  rw [ArgumentIterator.checkTypeTag, byteAt_of_drop htag]
  exact if_neg a.tag_ne_zero

/-- The conversions with one type tag look at it first. -/
theorem read_error {e : ReadFailure} (hbool : c ≠ .bool)
    (h : it.checkTypeTag m c.tag = .error e) : it.read m c = .error e := by
  cases c with
  | bool => exact absurd rfl hbool
  | _ =>
    simp only [Conversion.tag] at h
    simp only [ArgumentIterator.read, ArgumentIterator.asInt32, ArgumentIterator.asFloat,
      ArgumentIterator.asRgbaColor, ArgumentIterator.asMidiMessage, ArgumentIterator.asChar,
      ArgumentIterator.as32, ArgumentIterator.asInt64, ArgumentIterator.asTimeTag,
      ArgumentIterator.asDouble, ArgumentIterator.as64, ArgumentIterator.asString,
      ArgumentIterator.asSymbol, ArgumentIterator.asStr4, ArgumentIterator.asBlob, h, bind,
      Except.bind]

/-- The conversions that do not belong to the argument throw. -/
theorem read_wrong (htag : m.drop it.typeTagPtr = a.tag :: tags) (hc : a.conversion ≠ some c) :
    it.read m c = .error .wrongArgumentType := by
  have hne := tag_ne_of_conversion hc
  by_cases hbool : c = .bool
  · subst hbool
    have hfalse : a.tag ≠ FALSE_TYPE_TAG := fun hfalse => hc (by rw [← ofTag_arg, hfalse]; rfl)
    rw [ArgumentIterator.read, ArgumentIterator.asBool, byteAt_of_drop htag]
    simp only [bind, Except.bind, if_neg a.tag_ne_zero, if_neg hfalse]
    rw [if_neg (by exact hne)]
  · exact read_error hbool ((checkTypeTag_of_drop htag c.tag).trans (if_neg hne))

/-- At the end there is nothing to convert. -/
theorem read_missing (htag : m.drop it.typeTagPtr = 0 :: tags) :
    it.read m c = .error .missingArgument := by
  by_cases hbool : c = .bool
  · subst hbool
    rw [ArgumentIterator.read, ArgumentIterator.asBool, byteAt_of_drop htag]
    rfl
  · refine read_error hbool ?_
    rw [ArgumentIterator.checkTypeTag, byteAt_of_drop htag]
    rfl

/-- With the right tag a 32-bit value is read as it was written. -/
theorem as32_ok (tag : UInt8) {v : BitVec 32} (hcheck : it.checkTypeTag m tag = .ok ())
    (hpointer : it.argumentPtr = some p) (h : m.drop p = fromUInt32 v ++ rest) :
    it.as32 m tag = .ok v := by
  rw [ArgumentIterator.as32, hcheck, ArgumentIterator.pointer, hpointer]
  exact toUInt32_of_drop h

/-- So is a 64-bit value. -/
theorem as64_ok (tag : UInt8) {v : BitVec 64} (hcheck : it.checkTypeTag m tag = .ok ())
    (hpointer : it.argumentPtr = some p) (h : m.drop p = fromUInt64 v ++ rest) :
    it.as64 m tag = .ok v := by
  rw [ArgumentIterator.as64, hcheck, ArgumentIterator.pointer, hpointer]
  exact toUInt64_of_drop h

/-- For a string there is a pointer to it. -/
theorem asStr4_ok (tag : UInt8) (hcheck : it.checkTypeTag m tag = .ok ())
    (hpointer : it.argumentPtr = some p) : it.asStr4 m tag = .ok p := by
  rw [ArgumentIterator.asStr4, hcheck, ArgumentIterator.pointer, hpointer]
  rfl

/-- For a blob a pointer to the data, and its size. -/
theorem asBlob_ok {data : List UInt8} (hcheck : it.checkTypeTag m BLOB_TYPE_TAG = .ok ())
    (hpointer : it.argumentPtr = some p) (h : m.drop p = (Arg.blob data).bytes ++ rest)
    (hdata : data.length ≤ 0x7FFFFFFC) : it.asBlob m = .ok (p + 4, data.length) := by
  have hsize : (BitVec.ofNat 32 data.length).toInt = data.length := by
    rw [BitVec.toInt_eq_toNat_of_lt, BitVec.toNat_ofNat, Nat.mod_eq_of_lt (by omega)]
    rw [BitVec.toNat_ofNat, Nat.mod_eq_of_lt (by omega)]
    omega
  have hvalid : isValidElementSizeValue (data.length : Int) = true :=
    decide_eq_true ⟨Int.natCast_nonneg _, by exact_mod_cast hdata⟩
  rw [ArgumentIterator.asBlob, hcheck, ArgumentIterator.pointer, hpointer]
  simp only [bind, Except.bind, toUInt32_blob hdata h, hsize, hvalid]
  rfl

/-- **A conversion gives back the argument** it belongs to. -/
theorem read_arg (htag : m.drop it.typeTagPtr = a.tag :: tags) (hpointer : it.argumentPtr = some p)
    (h : m.drop p = a.bytes ++ rest) (hsize : a.size ≤ 0x7FFFFFFC) (hc : a.conversion = some c) :
    it.read m c = .ok a := by
  have hcheck := checkTypeTag_of_drop htag a.tag
  rw [if_pos rfl] at hcheck
  cases a with
  | bool b =>
    obtain rfl := Option.some.inj hc
    rw [ArgumentIterator.read, ArgumentIterator.asBool, byteAt_of_drop htag]
    cases b with
    | true => rfl
    | false => rfl
  | int32 v =>
    obtain rfl := Option.some.inj hc
    rw [ArgumentIterator.read, ArgumentIterator.asInt32, as32_ok INT32_TYPE_TAG hcheck hpointer h]
    rfl
  | float v =>
    obtain rfl := Option.some.inj hc
    rw [ArgumentIterator.read, ArgumentIterator.asFloat, as32_ok FLOAT_TYPE_TAG hcheck hpointer h]
    rfl
  | char v =>
    obtain rfl := Option.some.inj hc
    rw [ArgumentIterator.read, ArgumentIterator.asChar, as32_ok CHAR_TYPE_TAG hcheck hpointer h]
    refine congrArg (fun w => Except.ok (Arg.char w)) ?_
    ext i hi
    rw [BitVec.getElem_setWidth, BitVec.getLsbD_signExtend]
    simp [hi, Nat.lt_of_lt_of_le hi (by decide : 8 ≤ 32)]
  | rgbaColor v =>
    obtain rfl := Option.some.inj hc
    rw [ArgumentIterator.read, ArgumentIterator.asRgbaColor,
      as32_ok RGBA_COLOR_TYPE_TAG hcheck hpointer h]
    rfl
  | midiMessage v =>
    obtain rfl := Option.some.inj hc
    rw [ArgumentIterator.read, ArgumentIterator.asMidiMessage,
      as32_ok MIDI_MESSAGE_TYPE_TAG hcheck hpointer h]
    rfl
  | int64 v =>
    obtain rfl := Option.some.inj hc
    rw [ArgumentIterator.read, ArgumentIterator.asInt64, as64_ok INT64_TYPE_TAG hcheck hpointer h]
    rfl
  | timeTag v =>
    obtain rfl := Option.some.inj hc
    rw [ArgumentIterator.read, ArgumentIterator.asTimeTag,
      as64_ok TIME_TAG_TYPE_TAG hcheck hpointer h]
    rfl
  | double v =>
    obtain rfl := Option.some.inj hc
    rw [ArgumentIterator.read, ArgumentIterator.asDouble, as64_ok DOUBLE_TYPE_TAG hcheck hpointer h]
    rfl
  | string s =>
    obtain rfl := Option.some.inj hc
    rw [ArgumentIterator.read, ArgumentIterator.asString, asStr4_ok STRING_TYPE_TAG hcheck hpointer]
    simp only [bind, Except.bind, pure, Except.pure, cString_padded s h]
  | symbol s =>
    obtain rfl := Option.some.inj hc
    rw [ArgumentIterator.read, ArgumentIterator.asSymbol, asStr4_ok SYMBOL_TYPE_TAG hcheck hpointer]
    simp only [bind, Except.bind, pure, Except.pure, cString_padded s h]
  | blob data =>
    obtain rfl := Option.some.inj hc
    have hdata := (blob_length_le data).trans hsize
    have hpos := le_length_of_drop (List.cons_ne_nil _ _) h
    have hdrop : m.drop (p + 4) = zeroPad data ++ rest := by
      have hpast := drop_past ((h.trans (by rw [Arg.bytes, List.append_assoc])) :
        m.drop p = toBytes 4 data.length ++ (zeroPad data ++ rest))
      rwa [toBytes_length] at hpast
    have hin : p + 4 ≤ m.length := by
      have hlength := congrArg List.length h
      rw [List.length_drop, List.length_append, Arg.bytes_length, Arg.size] at hlength
      omega
    rw [zeroPad, List.append_assoc] at hdrop
    rw [ArgumentIterator.read, asBlob_ok hcheck hpointer h hdata]
    simp only [bind, Except.bind, pure, Except.pure, bytesAt_of_drop hin hdrop]
  | _ => cases hc

end Read

end Aoo.Osc
