import Aoo.Lib.Bytes

/-!
# Binary message headers and OSC messages

`binmsg.hpp`. A binary AOO message starts with a domain byte (type and the
`0x80` bit), a command byte and two ids: one byte each when both are below 256,
otherwise (command byte with `0x80`) two `int32` fields behind two zero bytes.

OSC messages are kept as an address pattern with a list of typed arguments;
`OscMessage.size` is the length of their OSC 1.0 encoding, in which strings,
type tags and blobs are padded to four bytes.
-/

namespace Aoo

open Lib

def kAooIdInvalid : Int := -1

/-- `AooError`, without those that play no role here. -/
inductive AooError
  | notImplemented
  | notPermitted
  | badArgument
  | badFormat
  | alreadyExists
  | notFound
  | unhandledRequest
  | versionNotSupported
  | wrongPassword
  | notConnected
  | groupDoesNotExist
  | cannotCreateGroup
  | alreadyGroupMember
  | notGroupMember
  | userAlreadyExists
  | cannotCreateUser
  | other (code : Int)
  deriving DecidableEq, Repr

/-- The errors by number. -/
def AooError.code : AooError → Int
  | .notImplemented => 1
  | .notPermitted => 2
  | .badArgument => 4
  | .badFormat => 5
  | .alreadyExists => 12
  | .notFound => 13
  | .unhandledRequest => 1001
  | .versionNotSupported => 1002
  | .wrongPassword => 1004
  | .notConnected => 1006
  | .groupDoesNotExist => 1007
  | .cannotCreateGroup => 1008
  | .alreadyGroupMember => 1009
  | .notGroupMember => 1010
  | .userAlreadyExists => 1011
  | .cannotCreateUser => 1013
  | .other code => code

def kAooErrorNone : Int := 0

/-- The error with a number. -/
def AooError.ofCode : Int → AooError
  | 1 => .notImplemented
  | 2 => .notPermitted
  | 4 => .badArgument
  | 5 => .badFormat
  | 12 => .alreadyExists
  | 13 => .notFound
  | 1001 => .unhandledRequest
  | 1002 => .versionNotSupported
  | 1004 => .wrongPassword
  | 1006 => .notConnected
  | 1007 => .groupDoesNotExist
  | 1008 => .cannotCreateGroup
  | 1009 => .alreadyGroupMember
  | 1010 => .notGroupMember
  | 1011 => .userAlreadyExists
  | 1013 => .cannotCreateUser
  | code => .other code

/-- `AooData` -/
structure AooData where
  type : Int
  data : List UInt8
  deriving DecidableEq, Repr

/-- `AooMsgType` -/
inductive AooMsgType
  | source | sink | server | client | peer | relay
  deriving DecidableEq, Repr

/-- The number of a message type on the wire. -/
def AooMsgType.toNat : AooMsgType → Nat
  | .source => 0
  | .sink => 1
  | .server => 2
  | .client => 3
  | .peer => 4
  | .relay => 5

def kAooBinMsgDomainBit : Nat := 0x80
def kAooBinMsgSizeBit : Nat := 0x80
def kAooBinMsgHeaderSize : Nat := 4
def kAooBinMsgLargeHeaderSize : Nat := 12

def AOO_MAX_PACKET_SIZE : Nat := 4096

/-- A 32-bit two's complement field. -/
def int32Bytes (v : Int) : List UInt8 := toBytes 4 (unsigned 4294967296 v)

/-- A 16-bit two's complement field. -/
def int16Bytes (v : Int) : List UInt8 := toBytes 2 (unsigned 65536 v)

/-- The low byte of an integer, as the cast to `AooByte` leaves it. -/
def toByte (v : Int) : UInt8 := UInt8.ofNat (unsigned 256 v)

/-- The bit test `x & bit` for a single-bit mask. -/
def hasBit (x bit : Nat) : Bool := x &&& bit != 0

theorem hasBit_or (x y bit : Nat) : hasBit (x ||| y) bit = (hasBit x bit || hasBit y bit) := by
  simp only [hasBit, Nat.and_or_distrib_right]
  rw [Bool.eq_iff_iff]
  simp only [bne_iff_ne, Bool.or_eq_true, ne_eq, Nat.or_eq_zero_iff]
  omega

theorem hasBit_ite (c : Prop) [Decidable c] (x y bit : Nat) :
    hasBit (if c then x else y) bit = if c then hasBit x bit else hasBit y bit := by
  split <;> rfl

/-- `binmsg_write_header` with ids: the bytes written, none if `size` is too
small for them. -/
def binmsgWriteHeader (size : Nat) (type : AooMsgType) (cmd : Nat) (toId fromId : Int) :
    List UInt8 :=
  if toId ≥ 256 ∨ fromId ≥ 256 then
    if size < 12 then []
    else
      [UInt8.ofNat (type.toNat ||| kAooBinMsgDomainBit), UInt8.ofNat (cmd ||| kAooBinMsgSizeBit),
        0, 0] ++ int32Bytes toId ++ int32Bytes fromId
  else if size < 4 then []
  else
    [UInt8.ofNat (type.toNat ||| kAooBinMsgDomainBit), UInt8.ofNat cmd, toByte toId, toByte fromId]

/-- `binmsg_check` -/
def binmsgCheck (data : List UInt8) : Bool :=
  decide (data.length ≥ 4) && hasBit (data.getD 0 0).toNat kAooBinMsgDomainBit

/-- `binmsg_headersize`: 0 when the large header is cut off. -/
def binmsgHeadersize (data : List UInt8) : Nat :=
  let n := if hasBit (data.getD 1 0).toNat kAooBinMsgSizeBit then 12 else 4
  if data.length ≥ n then n else 0

/-- `binmsg_type`: the domain byte without the domain bit. -/
def binmsgType (data : List UInt8) : Nat := (data.getD 0 0).toNat % 128

/-- `binmsg_cmd`: the command byte without the size bit. -/
def binmsgCmd (data : List UInt8) : Nat := (data.getD 1 0).toNat % 128

/-- The `int32` field at the front of the input (`from_bytes<int32_t>`). -/
def int32Field (data : List UInt8) : Int := signed 4294967296 (field 4 data)

/-- `binmsg_to` (also `binmsg_group`) -/
def binmsgTo (data : List UInt8) : Int :=
  if hasBit (data.getD 1 0).toNat kAooBinMsgSizeBit then
    if data.length ≥ 12 then int32Field (data.drop 4) else kAooIdInvalid
  else (data.getD 2 0).toNat

/-- `binmsg_from` (also `binmsg_user`) -/
def binmsgFrom (data : List UInt8) : Int :=
  if hasBit (data.getD 1 0).toNat kAooBinMsgSizeBit then int32Field (data.drop 8)
  else (data.getD 3 0).toNat

/-! ## OSC messages -/

/-- The patterns of the server's messages to a client, behind `/aoo/client`. -/
inductive ClientPattern
  | ping
  | pong
  | login
  | message
  | request
  | groupJoin
  | groupLeave
  | groupEject
  | groupUpdate
  | groupChanged
  | userUpdate
  | userChanged
  | peerJoin
  | peerLeave
  | peerChanged
  deriving DecidableEq, Repr

def ClientPattern.text : ClientPattern → String
  | .ping => "/ping"
  | .pong => "/pong"
  | .login => "/login"
  | .message => "/msg"
  | .request => "/request"
  | .groupJoin => "/group/join"
  | .groupLeave => "/group/leave"
  | .groupEject => "/group/eject"
  | .groupUpdate => "/group/update"
  | .groupChanged => "/group/changed"
  | .userUpdate => "/user/update"
  | .userChanged => "/user/changed"
  | .peerJoin => "/peer/join"
  | .peerLeave => "/peer/leave"
  | .peerChanged => "/peer/changed"

/-- The address patterns of the OSC messages that are modelled. -/
inductive OscAddress
  | peerMessage
  | peerAck
  | sinkData (id : Int)
  | sourceData (id : Int)
  | client (pattern : ClientPattern)
  | relay
  deriving DecidableEq, Repr

/-- Typed arguments; a time tag and a double are kept as 64-bit patterns. -/
inductive OscArg
  | nil
  | int32 (v : Int)
  | timeTag (t : Nat)
  | double (bits : Nat)
  | string (s : String)
  | blob (data : List UInt8)
  deriving DecidableEq, Repr

structure OscMessage where
  address : OscAddress
  args : List OscArg
  deriving DecidableEq, Repr

/-- The length of an `AooId` printed with `%d`. -/
def idLength (id : Int) : Nat :=
  if id < 0 then (Nat.toDigits 10 id.natAbs).length + 1
  else (Nat.toDigits 10 id.natAbs).length

/-- An id has at most ten digits. -/
theorem idLength_le {id : Int} (h : 0 ≤ id ∧ id < 2147483648) : idLength id ≤ 10 := by
  unfold idLength
  rw [if_neg (by omega)]
  exact (Nat.length_toDigits_le_iff (by decide) (by decide)).mpr (by omega)

/-- `strlen`: the bytes of a string. -/
def strlen (s : String) : Nat := (s.toList.map Char.utf8Size).sum

/-- The length of the address text: `/aoo/peer/msg`, `/aoo/peer/ack`,
`/aoo/sink/<id>/data`, `/aoo/src/<id>/data`, `/aoo/client<pattern>`, `/aoo/relay`. -/
def OscAddress.length : OscAddress → Nat
  | .peerMessage => 13
  | .peerAck => 13
  | .sinkData id => 15 + idLength id
  | .sourceData id => 14 + idLength id
  | .client pattern => 11 + strlen pattern.text
  | .relay => 10

/-- Round up to the next multiple of four. -/
def pad4 (n : Nat) : Nat := (n + 3) / 4 * 4

/-- The bytes an argument takes behind the type tags. -/
def OscArg.size : OscArg → Nat
  | .nil => 0
  | .int32 _ => 4
  | .timeTag _ => 8
  | .double _ => 8
  | .string s => pad4 (strlen s + 1)
  | .blob data => 4 + pad4 data.length

/-- The size of the encoded message: address (zero-terminated), type tags
(comma, one tag per argument, zero-terminated) and arguments. -/
def OscMessage.size (m : OscMessage) : Nat :=
  pad4 (m.address.length + 1) + pad4 (m.args.length + 2) + (m.args.map OscArg.size).sum

/-! ## Datagrams -/

/-- What travels over the network: a binary message or an OSC message. -/
inductive Datagram
  | bin (data : List UInt8)
  | osc (msg : OscMessage)
  deriving DecidableEq, Repr

def Datagram.size : Datagram → Nat
  | .bin data => data.length
  | .osc msg => msg.size

/-! ## Field lemmas -/

/-- A big-endian `int32` field reads back. -/
theorem signed_int32 {v : Int} (h0 : -2147483648 ≤ v) (h1 : v < 2147483648) :
    signed 4294967296 (unsigned 4294967296 v) = v :=
  signed_unsigned (by decide) (by push_cast; omega) (by push_cast; omega)

@[simp] theorem int32Bytes_length (v : Int) : (int32Bytes v).length = 4 := by
  simp [int32Bytes]

@[simp] theorem int16Bytes_length (v : Int) : (int16Bytes v).length = 2 := by
  simp [int16Bytes]

@[simp] theorem int32Field_append {v : Int} (h0 : -2147483648 ≤ v) (h1 : v < 2147483648)
    (rest : List UInt8) : int32Field (int32Bytes v ++ rest) = v := by
  have hlt : unsigned 4294967296 v < 4294967296 := unsigned_lt (by decide) v
  rw [int32Field, int32Bytes, field_append, Nat.mod_eq_of_lt (by omega), signed_int32 h0 h1]

@[simp] theorem drop_int32Bytes_append (v : Int) (rest : List UInt8) :
    (int32Bytes v ++ rest).drop 4 = rest :=
  drop_toBytes_append 4 _ rest

/-- A written header is recognised, and what stands behind it is the body. -/
theorem binmsgWriteHeader_append {size : Nat} (hsize : 12 ≤ size) (type : AooMsgType)
    {cmd : Nat} (hcmd : cmd < 2) (toId fromId : Int) (body : List UInt8) :
    let data := binmsgWriteHeader size type cmd toId fromId ++ body
    binmsgCheck data = true ∧ binmsgType data = type.toNat ∧ binmsgCmd data = cmd ∧
      0 < binmsgHeadersize data ∧ data.drop (binmsgHeadersize data) = body := by
  intro data
  have hcmd' : cmd = 0 ∨ cmd = 1 := by omega
  by_cases hlarge : toId ≥ 256 ∨ fromId ≥ 256
  · have hdata : data = UInt8.ofNat (type.toNat ||| kAooBinMsgDomainBit) ::
        UInt8.ofNat (cmd ||| kAooBinMsgSizeBit) :: 0 :: 0 ::
          (int32Bytes toId ++ (int32Bytes fromId ++ body)) := by
      simp only [data, binmsgWriteHeader, if_pos hlarge, if_neg (Nat.not_lt.mpr hsize),
        List.cons_append, List.nil_append, List.append_assoc]
    have hsz : binmsgHeadersize data = 12 := by
      rw [hdata]
      rcases hcmd' with rfl | rfl <;> simp [binmsgHeadersize, hasBit, kAooBinMsgSizeBit] <;> omega
    refine ⟨?_, ?_, ?_, by omega, ?_⟩
    · rw [hdata]
      cases type <;> simp [binmsgCheck, hasBit, AooMsgType.toNat, kAooBinMsgDomainBit]
    · rw [hdata]
      cases type <;> simp [binmsgType, AooMsgType.toNat, kAooBinMsgDomainBit]
    · rw [hdata]
      rcases hcmd' with rfl | rfl <;> simp [binmsgCmd, kAooBinMsgSizeBit]
    · rw [hsz, hdata]
      simp [List.drop_append]
  · have hdata : data = UInt8.ofNat (type.toNat ||| kAooBinMsgDomainBit) :: UInt8.ofNat cmd ::
        toByte toId :: toByte fromId :: body := by
      simp only [data, binmsgWriteHeader, if_neg hlarge, if_neg (show ¬ size < 4 by omega),
        List.cons_append, List.nil_append]
    have hsz : binmsgHeadersize data = 4 := by
      rw [hdata]
      rcases hcmd' with rfl | rfl <;> simp [binmsgHeadersize, hasBit, kAooBinMsgSizeBit]
    refine ⟨?_, ?_, ?_, by omega, ?_⟩
    · rw [hdata]
      cases type <;> simp [binmsgCheck, hasBit, AooMsgType.toNat, kAooBinMsgDomainBit]
    · rw [hdata]
      cases type <;> simp [binmsgType, AooMsgType.toNat, kAooBinMsgDomainBit]
    · rw [hdata]
      rcases hcmd' with rfl | rfl <;> simp [binmsgCmd]
    · rw [hsz, hdata]
      rfl

/-- The room that is asked for is enough. -/
theorem binmsgWriteHeader_of_large {size : Nat} (hsize : 12 ≤ size) (type : AooMsgType) (cmd : Nat)
    (toId fromId : Int) :
    binmsgWriteHeader (if decide (toId > 255) || decide (fromId > 255) then
      kAooBinMsgLargeHeaderSize else kAooBinMsgHeaderSize) type cmd toId fromId =
      binmsgWriteHeader size type cmd toId fromId := by
  have hlarge : ¬ size < 12 := by omega
  have hsmall : ¬ size < 4 := by omega
  by_cases h : toId ≥ 256 ∨ fromId ≥ 256
  · have hdec : (decide (toId > 255) || decide (fromId > 255)) = true := by
      simp only [Bool.or_eq_true, decide_eq_true_eq]
      omega
    rw [hdec, if_pos rfl, binmsgWriteHeader, binmsgWriteHeader, if_pos h, if_pos h, if_neg hlarge,
      if_neg (by decide)]
  · have hdec : (decide (toId > 255) || decide (fromId > 255)) = false := by
      simp only [Bool.or_eq_false_iff, decide_eq_false_iff_not]
      omega
    rw [hdec, if_neg Bool.false_ne_true, binmsgWriteHeader, binmsgWriteHeader, if_neg h, if_neg h,
      if_neg hsmall, if_neg (by decide)]

theorem binmsgWriteHeader_length_le (size : Nat) (type : AooMsgType) (cmd : Nat)
    (toId fromId : Int) : (binmsgWriteHeader size type cmd toId fromId).length ≤ 12 := by
  unfold binmsgWriteHeader
  split
  · split <;> simp
  · split <;> simp

/-- The ids read back, in either form of the header. -/
theorem binmsgWriteHeader_ids {size : Nat} (hsize : 12 ≤ size) (type : AooMsgType) {cmd : Nat}
    (hcmd : cmd < 2) {toId fromId : Int} (hto : 0 ≤ toId ∧ toId < 2147483648)
    (hfrom : 0 ≤ fromId ∧ fromId < 2147483648) (body : List UInt8) :
    binmsgTo (binmsgWriteHeader size type cmd toId fromId ++ body) = toId ∧
      binmsgFrom (binmsgWriteHeader size type cmd toId fromId ++ body) = fromId := by
  have hcmd' : cmd = 0 ∨ cmd = 1 := by omega
  by_cases hlarge : toId ≥ 256 ∨ fromId ≥ 256
  · have hdata : binmsgWriteHeader size type cmd toId fromId ++ body =
        UInt8.ofNat (type.toNat ||| kAooBinMsgDomainBit) ::
        UInt8.ofNat (cmd ||| kAooBinMsgSizeBit) :: 0 :: 0 ::
          (int32Bytes toId ++ (int32Bytes fromId ++ body)) := by
      simp only [binmsgWriteHeader, if_pos hlarge, if_neg (Nat.not_lt.mpr hsize),
        List.cons_append, List.nil_append, List.append_assoc]
    have hbit : hasBit (UInt8.ofNat (cmd ||| kAooBinMsgSizeBit)).toNat kAooBinMsgSizeBit = true := by
      rcases hcmd' with rfl | rfl <;> decide
    have hfrom8 : (UInt8.ofNat (type.toNat ||| kAooBinMsgDomainBit) ::
        UInt8.ofNat (cmd ||| kAooBinMsgSizeBit) :: 0 :: 0 ::
          (int32Bytes toId ++ (int32Bytes fromId ++ body))).drop 8 =
        int32Bytes fromId ++ body := by
      simp only [List.drop_succ_cons, drop_int32Bytes_append]
    rw [hdata]
    constructor
    · simp only [binmsgTo, List.getD_cons_succ, List.getD_cons_zero, hbit, if_true,
        List.drop_succ_cons, List.drop_zero]
      rw [if_pos (by simp; omega), int32Field_append (by omega) hto.2]
    · simp only [binmsgFrom, List.getD_cons_succ, List.getD_cons_zero, hbit, if_true, hfrom8]
      exact int32Field_append (by omega) hfrom.2 body
  · have hdata : binmsgWriteHeader size type cmd toId fromId ++ body =
        UInt8.ofNat (type.toNat ||| kAooBinMsgDomainBit) :: UInt8.ofNat cmd ::
        toByte toId :: toByte fromId :: body := by
      simp only [binmsgWriteHeader, if_neg hlarge, if_neg (show ¬ size < 4 by omega),
        List.cons_append, List.nil_append]
    have hbit : hasBit (UInt8.ofNat cmd).toNat kAooBinMsgSizeBit = false := by
      rcases hcmd' with rfl | rfl <;> decide
    have hbyte : ∀ v : Int, 0 ≤ v → v < 256 → ((toByte v).toNat : Int) = v := by
      intro v h0 h1
      have hlt : unsigned 256 v < 256 := unsigned_lt (by decide) v
      rw [toByte, UInt8.toNat_ofNat', Nat.mod_eq_of_lt hlt]
      exact unsigned_of_lt h0 h1
    rw [hdata]
    constructor
    · simp only [binmsgTo, List.getD_cons_succ, List.getD_cons_zero, hbit, Bool.false_eq_true,
        if_false]
      exact hbyte toId hto.1 (by omega)
    · simp only [binmsgFrom, List.getD_cons_succ, List.getD_cons_zero, hbit, Bool.false_eq_true,
        if_false]
      exact hbyte fromId hfrom.1 (by omega)

end Aoo
