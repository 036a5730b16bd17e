import Aoo.Net.Format

/-!
# Relayed messages

A client that cannot reach a peer sends its datagrams to a relay, each wrapped in a message that
names the peer (`write_relay_message`). The relay passes the datagram on and puts the address of
the sender in place of the destination. There are two relays: the function
`aoo_handleRelayMessage` of the library and `Server::handle_relay`. Both take the kind of
socket into account: an IPv6 socket reaches IPv4 addresses only if they are mapped.

The address of a binary message has 4 or 16 bytes, so a message is either rewritten in place
(`binmsg_write_relay`) or built again.

Main result: `relay_iff`, when a relayed message arrives with its sender, and when the two relays
agree.
-/

namespace Aoo.Net

open Lib

/-! ## Addresses -/

/-- `ip_address::ip_type` -/
inductive IpType
  | unspec
  | ipv4
  | ipv6
  deriving DecidableEq, Repr

namespace IpAddress

/-- `ip_address::type`, by the number of bytes that belong to the family. -/
def type (a : IpAddress) : IpType :=
  if a.host.length = 4 then .ipv4
  else if a.host.length = 16 then .ipv6
  else .unspec

/-- `ip_address::ipv4_mapped` -/
def ipv4Mapped (a : IpAddress) : IpAddress :=
  if a.type = .ipv4 then ⟨[0, 0, 0, 0, 0, 0, 0, 0, 0, 0, 255, 255] ++ a.host, a.port⟩ else a

/-- `ip_address::unmapped` -/
def unmapped (a : IpAddress) : IpAddress :=
  if a.isIpv4Mapped then ⟨a.host.drop 12, a.port⟩ else a

end IpAddress

/-- `AooSocketFlags` -/
structure SocketFlags where
  ipv4 : Bool
  ipv6 : Bool
  ipv4Mapped : Bool
  deriving DecidableEq, Repr

/-- The combinations that `Server::setup` permits (and that the flags of a socket have). -/
def SocketFlags.permitted (type : SocketFlags) : Bool :=
  !(type.ipv4Mapped && (!type.ipv6 || type.ipv4)) && (type.ipv4 || type.ipv6)

/-! ## The wire format -/

def kAooBinMsgCmdRelayIPv4 : Nat := 0
def kAooBinMsgCmdRelayIPv6 : Nat := 1

/-- `binmsg_write_relay`: the header it writes, if the buffer has room for it. -/
def binmsgWriteRelay (size : Nat) (addr : IpAddress) : List UInt8 :=
  let type := UInt8.ofNat (AooMsgType.relay.toNat ||| kAooBinMsgDomainBit)
  if addr.type = .ipv6 then
    if size ≥ 20 then
      [type, UInt8.ofNat kAooBinMsgCmdRelayIPv6] ++ toBytes 2 addr.port.toNat ++ addr.host
    else []
  else if size ≥ 8 then
    [type, UInt8.ofNat kAooBinMsgCmdRelayIPv4] ++ toBytes 2 addr.port.toNat ++ addr.host
  else []

/-- `binmsg_read_relay`: the size of the header (0 if there is none) and the address. -/
def binmsgReadRelay (data : List UInt8) : Nat × IpAddress :=
  if (data.getD 1 0).toNat = kAooBinMsgCmdRelayIPv6 then
    if data.length ≥ 20 then
      (20, ⟨(data.drop 4).take 16, UInt16.ofNat (field 2 (data.drop 2))⟩)
    else (0, .clear)
  else if data.length ≥ 8 then
    (8, ⟨(data.drop 4).take 4, UInt16.ofNat (field 2 (data.drop 2))⟩)
  else (0, .clear)

/-- The OSC relay message. -/
def relayOsc (T : AddressText) (addr : IpAddress) (msg : List UInt8) : OscMessage :=
  ⟨.relay, oscAddress T addr ++ [.blob msg]⟩

/-- An OSC message in a buffer, if it fits (oscpack throws if it does not). -/
def oscFits (bufsize : Nat) (m : OscMessage) : Option Datagram :=
  if m.size ≤ bufsize then some (.osc m) else none

/-- `write_relay_message`. Nothing if it fails (0 bytes, or an exception of oscpack). -/
def writeRelayMessage (T : AddressText) (bufsize : Nat) (msg : List UInt8) (addr : IpAddress)
    (binary : Bool) : Option Datagram :=
  if binary then
    let data := binmsgWriteRelay bufsize addr ++ msg
    if bufsize ≥ data.length ∧ data ≠ [] then some (.bin data) else none
  else oscFits bufsize (relayOsc T addr msg)

/-- The arguments of an OSC relay message, as both relays and a client read them. -/
def readRelayOsc (T : AddressText) : OscReader (IpAddress × List UInt8) := do
  let addr ← OscReader.address T
  let msg ← OscReader.asBlob
  return (addr, msg)

/-- What the receiver of a relayed datagram reads: the sender and the payload. -/
def decodeRelay (T : AddressText) : Datagram → Option (IpAddress × List UInt8)
  | .bin data =>
    if binmsgCheck data && binmsgType data == AooMsgType.relay.toNat then
      let (offset, addr) := binmsgReadRelay data
      if offset = 0 then none else some (addr, data.drop offset)
    else none
  | .osc m =>
    if m.address = .relay then
      match readRelayOsc T m.args with
      | .ok (content, _) => some content
      | .error _ => none
    else none

/-! ## The relay of the library -/

/-- A datagram that goes out, and where to. -/
structure Relayed where
  data : Datagram
  dst : IpAddress
  deriving DecidableEq, Repr

def kAooErrorInsufficientBuffer : AooError := .other 14

/-- The lambda `check_addr` in `aoo_handleRelayMessage`, which may map the address. The
assertions about the address have no effect in a release build. -/
def SocketFlags.checkAddr (socketType : SocketFlags) (addr : IpAddress) : Option IpAddress :=
  if addr.isIpv4Mapped then none
  else if addr.type = .ipv6 then
    if socketType.ipv6 then some addr else none
  else if socketType.ipv4 then some addr
  else if socketType.ipv4Mapped then some addr.ipv4Mapped
  else none

/-- The header of a binary message is replaced. -/
def rewriteHeader (data : List UInt8) (addr : IpAddress) : List UInt8 :=
  let header := binmsgWriteRelay data.length addr
  header ++ data.drop header.length

/-- `aoo_handleRelayMessage`: what is given to the send function, or an error. -/
def aooHandleRelayMessage (T : AddressText) (d : Datagram) (address : IpAddress)
    (socketType : SocketFlags) : Except AooError Relayed :=
  if !(socketType.ipv4 || socketType.ipv6) then .error .badArgument
  else
    let srcAddr := address.unmapped
    match d with
    | .bin data =>
      if binmsgCheck data then
        if binmsgType data ≠ AooMsgType.relay.toNat then .error .badFormat
        else
          let (offset, addr) := binmsgReadRelay data
          if offset = 0 then .error .badFormat
          else
            match socketType.checkAddr addr with
            | none => .error .notPermitted
            | some dstAddr =>
              if srcAddr.type = dstAddr.type then .ok ⟨.bin (rewriteHeader data srcAddr), dstAddr⟩
              else
                match writeRelayMessage T AOO_MAX_PACKET_SIZE (data.drop offset) srcAddr true with
                | none => .error kAooErrorInsufficientBuffer
                | some result => .ok ⟨result, dstAddr⟩
      else .error .badFormat
    | .osc m =>
      if m.address = .relay then
        match OscReader.address T m.args with
        | .error _ => .error .badFormat
        | .ok (addr, it) =>
          match socketType.checkAddr addr with
          | none => .error .notPermitted
          | some dstAddr =>
            match OscReader.asBlob it with
            | .error _ => .error .badFormat
            | .ok (msg, _) =>
              match oscFits AOO_MAX_PACKET_SIZE (relayOsc T srcAddr msg) with
              | none => .error .badFormat
              | some result => .ok ⟨result, dstAddr⟩
      else .error .badFormat

/-! ## The relay of the server -/

/-- What `Server::handle_relay` uses of the server. -/
structure RelayServer where
  addressFamily : IpType
  useIpv4Mapped : Bool
  internalRelay : Bool
  deriving DecidableEq, Repr

namespace RelayServer

/-- `Server::setup`, the end: how the server keeps the flags. -/
def setup (type : SocketFlags) (internalRelay : Bool) : RelayServer where
  addressFamily := if type.ipv6 then (if type.ipv4 then .unspec else .ipv6) else .ipv4
  useIpv4Mapped := type.ipv4Mapped
  internalRelay := internalRelay

/-- The lambda `check_addr` in `Server::handle_relay`. -/
def checkAddr (s : RelayServer) (addr : IpAddress) : Option IpAddress :=
  if addr.isIpv4Mapped then none
  else if s.addressFamily = .ipv6 ∧ addr.type = .ipv4 then
    if s.useIpv4Mapped then some addr.ipv4Mapped else none
  else if s.addressFamily = .ipv4 ∧ addr.type = .ipv6 then none
  else some addr

/-- `Server::handle_relay` -/
def handleRelay (T : AddressText) (s : RelayServer) (d : Datagram) (addr : IpAddress) :
    Option Relayed :=
  if !s.internalRelay then none
  else
    let srcAddr := addr.unmapped
    match d with
    | .bin data =>
      let (onset, dst) := binmsgReadRelay data
      match s.checkAddr dst with
      | none => none
      | some dstAddr =>
        if onset > 0 then
          if srcAddr.type = dstAddr.type then some ⟨.bin (rewriteHeader data srcAddr), dstAddr⟩
          else
            match writeRelayMessage T AOO_MAX_PACKET_SIZE (data.drop onset) srcAddr true with
            | some result => some ⟨result, dstAddr⟩
            | none => none
        else none
    | .osc m =>
      match OscReader.address T m.args with
      | .error _ => none
      | .ok (dst, it) =>
        match s.checkAddr dst with
        | none => none
        | some dstAddr =>
          match OscReader.asBlob it with
          | .error _ => none
          | .ok (msg, _) =>
            match oscFits AOO_MAX_PACKET_SIZE (relayOsc T srcAddr msg) with
            | none => none
            | some result => some ⟨result, dstAddr⟩

/-- `Server::handle_udp_packet`, for relay messages. -/
def handleUdpPacket (T : AddressText) (s : RelayServer) (d : Datagram) (addr : IpAddress) :
    Option Relayed :=
  match d with
  | .bin data =>
    if binmsgCheck data && binmsgType data == AooMsgType.relay.toNat then s.handleRelay T d addr
    else none
  | .osc m => if m.address = .relay then s.handleRelay T d addr else none

end RelayServer

/-! ## Addresses, mapped and unmapped -/

/-- The address of a socket. -/
def IpAddress.Proper (a : IpAddress) : Prop := a.type ≠ .unspec

/-- A proper address is one of IPv4 or IPv6. -/
theorem IpAddress.proper_iff {a : IpAddress} :
    a.Proper ↔ a.host.length = 4 ∨ a.host.length = 16 := by
  unfold Proper type
  split_ifs with h4 h16 <;> simp [h4] <;> omega

theorem IpAddress.not_proper_clear : ¬ IpAddress.clear.Proper := fun h => h rfl

/-- IPv4 has four bytes. -/
theorem IpAddress.type_eq_ipv4 {a : IpAddress} : a.type = .ipv4 ↔ a.host.length = 4 := by
  unfold type
  split_ifs with h4 h16 <;> simp [h4]

/-- IPv6 has sixteen. -/
theorem IpAddress.type_eq_ipv6 {a : IpAddress} : a.type = .ipv6 ↔ a.host.length = 16 := by
  unfold type
  split_ifs with h4 h16
  · simp [h4]
  · simp [h16]
  · simp [h16]

/-- Only an IPv6 address can be mapped. -/
theorem IpAddress.not_isIpv4Mapped {a : IpAddress} (h : a.type ≠ .ipv6) :
    a.isIpv4Mapped = false := by
  rw [ne_eq, type_eq_ipv6] at h
  simp [isIpv4Mapped, h]

/-- An address that is not mapped is left alone. -/
theorem IpAddress.unmapped_eq {a : IpAddress} (h : a.isIpv4Mapped = false) : a.unmapped = a := by
  simp [unmapped, h]

/-- The IPv4 address of a mapped one is proper. -/
theorem IpAddress.Proper.unmapped {a : IpAddress} (h : a.Proper) : a.unmapped.Proper := by
  unfold IpAddress.unmapped
  split
  next hmapped =>
    have hlen : a.host.length = 16 := by
      simp only [isIpv4Mapped, Bool.decide_and, Bool.and_eq_true, decide_eq_true_eq] at hmapped
      exact hmapped.1
    rw [proper_iff]
    left
    rw [List.length_drop, hlen]
  next => exact h

/-- A mapped address has the prefix of all mapped addresses. -/
theorem IpAddress.ipv4Mapped_host {a : IpAddress} (h : a.type = .ipv4) :
    a.ipv4Mapped = ⟨[0, 0, 0, 0, 0, 0, 0, 0, 0, 0, 255, 255] ++ a.host, a.port⟩ :=
  if_pos h

/-- A mapped address is an IPv6 address that unmaps to the address it was made of. -/
theorem IpAddress.ipv4Mapped_spec {a : IpAddress} (h : a.type = .ipv4) :
    a.ipv4Mapped.type = .ipv6 ∧ a.ipv4Mapped.unmapped = a := by
  have hlen := type_eq_ipv4.mp h
  rw [ipv4Mapped_host h]
  constructor
  · rw [type_eq_ipv6, List.length_append, hlen]
    rfl
  · have hmapped : (⟨[0, 0, 0, 0, 0, 0, 0, 0, 0, 0, 255, 255] ++ a.host, a.port⟩ :
        IpAddress).isIpv4Mapped = true := by
      simp [isIpv4Mapped, hlen]
    rw [IpAddress.unmapped, if_pos hmapped]
    rfl

/-! ## Round trips -/

/-- The header of a binary relay message. -/
def relayHeader (addr : IpAddress) : List UInt8 :=
  [133, if addr.type = .ipv6 then 1 else 0] ++ toBytes 2 addr.port.toNat ++ addr.host

/-- The relay header is four bytes and the address. -/
theorem relayHeader_length (addr : IpAddress) :
    (relayHeader addr).length = 4 + addr.host.length := by
  simp only [relayHeader, List.length_append, List.length_cons, List.length_nil, toBytes_length]

/-- It is written if it fits. -/
theorem binmsgWriteRelay_eq {size : Nat} {addr : IpAddress} (haddr : addr.Proper) :
    binmsgWriteRelay size addr =
      if (relayHeader addr).length ≤ size then relayHeader addr else [] := by
  rw [relayHeader_length]
  unfold binmsgWriteRelay relayHeader
  by_cases h6 : addr.type = .ipv6
  · rw [if_pos h6, if_pos h6, IpAddress.type_eq_ipv6.mp h6]
    rfl
  · have h4 : addr.host.length = 4 := by
      rcases IpAddress.proper_iff.mp haddr with h | h
      · exact h
      · exact absurd (IpAddress.type_eq_ipv6.mpr h) h6
    rw [if_neg h6, if_neg h6, h4]
    rfl

/-- A header is read back, and the rest is the payload. -/
theorem readRelay_relayHeader {addr : IpAddress} (haddr : addr.Proper) (msg : List UInt8) :
    binmsgCheck (relayHeader addr ++ msg) = true ∧
      binmsgType (relayHeader addr ++ msg) = AooMsgType.relay.toNat ∧
      binmsgReadRelay (relayHeader addr ++ msg) = ((relayHeader addr).length, addr) := by
  have hport : UInt16.ofNat (field 2 (toBytes 2 addr.port.toNat ++ (addr.host ++ msg))) =
      addr.port := by
    have hlt := addr.port.toNat_lt
    rw [field_append, Nat.mod_eq_of_lt (by omega), UInt16.ofNat_toNat]
  have hdata : relayHeader addr ++ msg = 133 :: (if addr.type = .ipv6 then 1 else 0) ::
      (toBytes 2 addr.port.toNat ++ (addr.host ++ msg)) := by
    simp only [relayHeader, List.cons_append, List.nil_append, List.append_assoc]
  have hlength : (relayHeader addr ++ msg).length = 4 + addr.host.length + msg.length := by
    rw [List.length_append, relayHeader_length]
  have hdrop : (relayHeader addr ++ msg).drop 4 = addr.host ++ msg := by
    rw [hdata]
    exact drop_toBytes_append 2 addr.port.toNat (addr.host ++ msg)
  refine ⟨?_, ?_, ?_⟩
  · rw [binmsgCheck, hlength, hdata]
    simp [hasBit, kAooBinMsgDomainBit]
    omega
  · rw [hdata, binmsgType, List.getD_cons_zero]
    decide
  · unfold binmsgReadRelay
    rw [hlength, hdrop, relayHeader_length]
    have hcmd : ((relayHeader addr ++ msg).getD 1 0).toNat =
        if addr.type = .ipv6 then 1 else 0 := by
      rw [hdata]
      show (if addr.type = .ipv6 then 1 else 0 : UInt8).toNat = _
      split <;> rfl
    have hfield : UInt16.ofNat (field 2 ((relayHeader addr ++ msg).drop 2)) = addr.port := by
      rw [hdata]
      exact hport
    rw [hcmd, hfield]
    by_cases h6 : addr.type = .ipv6
    · have hlen := IpAddress.type_eq_ipv6.mp h6
      rw [if_pos h6, if_pos (by decide), hlen, if_pos (by omega), List.take_left' hlen]
    · have hlen : addr.host.length = 4 := by
        rcases IpAddress.proper_iff.mp haddr with h | h
        · exact h
        · exact absurd (IpAddress.type_eq_ipv6.mpr h) h6
      rw [if_neg h6, if_neg (by decide), hlen, if_pos (by omega), List.take_left' hlen]

/-- A binary relay message is read as it was written. -/
theorem decodeRelay_relayHeader (T : AddressText) {addr : IpAddress} (haddr : addr.Proper)
    (msg : List UInt8) : decodeRelay T (.bin (relayHeader addr ++ msg)) = some (addr, msg) := by
  obtain ⟨hcheck, htype, hread⟩ := readRelay_relayHeader haddr msg
  simp only [decodeRelay, hcheck, htype, hread, BEq.rfl, Bool.and_self, if_true]
  rw [if_neg (by rw [relayHeader_length]; omega), List.drop_left]

/-- So is one in OSC form, if the address can be written as text. -/
theorem decodeRelay_relayOsc {T : AddressText} {addr : IpAddress} (hname : T.Names addr)
    (msg : List UInt8) : decodeRelay T (.osc (relayOsc T addr msg)) = some (addr.sent, msg) := by
  have hread : readRelayOsc T (relayOsc T addr msg).args = .ok ((addr.sent, msg), []) := by
    show (do
      let (a, it) ← OscReader.address T (oscAddress T addr ++ [.blob msg])
      let (data, it) ← OscReader.asBlob it
      Except.ok ((a, data), it) : Except OscException _) = _
    rw [address_oscAddress hname]
    rfl
  simp only [decodeRelay, hread]
  rfl

/-- An address that has been read is proper. -/
theorem readRelay_proper {data : List UInt8} (h : (binmsgReadRelay data).1 ≠ 0) :
    (binmsgReadRelay data).2.Proper := by
  rw [IpAddress.proper_iff]
  unfold binmsgReadRelay at h ⊢
  split_ifs at h ⊢
  · right
    rw [List.length_take, List.length_drop]
    omega
  · exact absurd rfl h
  · left
    rw [List.length_take, List.length_drop]
    omega
  · exact absurd rfl h

/-- Every binary message that is accepted names an address. -/
theorem proper_of_decodeRelay {T : AddressText} {data msg : List UInt8} {addr : IpAddress}
    (h : decodeRelay T (.bin data) = some (addr, msg)) : addr.Proper := by
  simp only [decodeRelay] at h
  split at h
  next =>
    split at h
    next => cases h
    next hoffset =>
      cases h
      exact readRelay_proper hoffset
  next => cases h

/-! ## Both relays as one

The relays differ in how they check the destination, and in nothing else. -/

/-- What is sent to `dst` for a datagram with payload `msg` from `src`. -/
def outgoing (T : AddressText) (src dst : IpAddress) (msg : List UInt8) :
    Datagram → Option Datagram
  | .bin data =>
    if src.type = dst.type then some (.bin (rewriteHeader data src))
    else writeRelayMessage T AOO_MAX_PACKET_SIZE msg src true
  | .osc _ => oscFits AOO_MAX_PACKET_SIZE (relayOsc T src msg)

/-- A relay that checks destinations with `check`. -/
def relayWith (T : AddressText) (check : IpAddress → Option IpAddress) (src : IpAddress)
    (d : Datagram) : Option Relayed :=
  match decodeRelay T d with
  | none => none
  | some (addr, msg) =>
    match check addr with
    | none => none
    | some dst => (outgoing T src dst msg d).map (⟨·, dst⟩)

/-- The OSC form is the address and a blob. -/
theorem readRelayOsc_eq (T : AddressText) (it : List OscArg) :
    readRelayOsc T it =
      match OscReader.address T it with
      | .error e => .error e
      | .ok (addr, it) =>
        match OscReader.asBlob it with
        | .error e => .error e
        | .ok (msg, it) => .ok ((addr, msg), it) := by
  show (do
    let (addr, it) ← OscReader.address T it
    let (msg, it) ← OscReader.asBlob it
    Except.ok ((addr, msg), it) : Except OscException _) = _
  cases OscReader.address T it with
  | error e => rfl
  | ok r =>
    show (do
      let (msg, it) ← OscReader.asBlob r.2
      Except.ok ((r.1, msg), it) : Except OscException _) = _
    cases hblob : OscReader.asBlob r.2 with
    | error e => simp only [hblob]; rfl
    | ok r' => simp only [hblob]; rfl

/-- The relay of the library. -/
theorem aooHandleRelayMessage_eq (T : AddressText) (d : Datagram) (address : IpAddress)
    {type : SocketFlags} (htype : type.permitted = true) :
    (aooHandleRelayMessage T d address type).toOption =
      relayWith T type.checkAddr address.unmapped d := by
  have hany : (!(type.ipv4 || type.ipv6)) = false := by
    simp only [SocketFlags.permitted, Bool.and_eq_true] at htype
    rw [htype.2]
    rfl
  unfold aooHandleRelayMessage relayWith
  rw [hany, if_neg Bool.false_ne_true]
  cases d with
  | bin data =>
    simp only [decodeRelay]
    by_cases hcheck : binmsgCheck data = true
    · by_cases hrelay : binmsgType data = AooMsgType.relay.toNat
      · simp only [hcheck, hrelay, ne_eq, not_true, if_true, if_false, BEq.rfl, Bool.and_self]
        by_cases hoffset : (binmsgReadRelay data).1 = 0
        · rw [if_pos hoffset, if_pos hoffset]
          rfl
        · rw [if_neg hoffset, if_neg hoffset]
          simp only [outgoing]
          cases type.checkAddr (binmsgReadRelay data).2 with
          | none => rfl
          | some dst =>
            simp only []
            split
            next => rfl
            next => cases writeRelayMessage T AOO_MAX_PACKET_SIZE _ address.unmapped true <;> rfl
      · simp [hcheck, hrelay, Except.toOption]
    · simp [hcheck, Except.toOption]
  | osc m =>
    simp only [decodeRelay, readRelayOsc_eq, outgoing]
    by_cases hrelay : m.address = .relay
    · rw [if_pos hrelay, if_pos hrelay]
      cases OscReader.address T m.args with
      | error e => rfl
      | ok r =>
        simp only []
        cases hcheck : type.checkAddr r.1 with
        | none => cases OscReader.asBlob r.2 <;> simp [Except.toOption, hcheck]
        | some dst =>
          cases OscReader.asBlob r.2 with
          | error e => rfl
          | ok r' =>
            simp only [hcheck]
            cases oscFits AOO_MAX_PACKET_SIZE (relayOsc T address.unmapped r'.1) <;> rfl
    · rw [if_neg hrelay, if_neg hrelay]
      rfl

/-- The relay of the server, if it is on. -/
theorem handleUdpPacket_eq (T : AddressText) {s : RelayServer} (hs : s.internalRelay = true)
    (d : Datagram) (addr : IpAddress) :
    s.handleUdpPacket T d addr = relayWith T s.checkAddr addr.unmapped d := by
  unfold RelayServer.handleUdpPacket RelayServer.handleRelay relayWith
  cases d with
  | bin data =>
    simp only [hs, Bool.not_true, Bool.false_eq_true, if_false, decodeRelay, outgoing]
    split
    next =>
      by_cases hoffset : (binmsgReadRelay data).1 = 0
      · rw [if_pos hoffset]
        cases s.checkAddr (binmsgReadRelay data).2 with
        | none => rfl
        | some dst => exact if_neg (by omega)
      · rw [if_neg hoffset]
        simp only []
        cases s.checkAddr (binmsgReadRelay data).2 with
        | none => rfl
        | some dst =>
          simp only [gt_iff_lt, Nat.pos_of_ne_zero hoffset, if_true]
          split
          next => rfl
          next => cases writeRelayMessage T AOO_MAX_PACKET_SIZE _ addr.unmapped true <;> rfl
    next => rfl
  | osc m =>
    simp only [hs, Bool.not_true, Bool.false_eq_true, if_false, decodeRelay, readRelayOsc_eq,
      outgoing]
    split
    next =>
      cases OscReader.address T m.args with
      | error e => rfl
      | ok r =>
        simp only []
        cases hcheck : s.checkAddr r.1 with
        | none => cases OscReader.asBlob r.2 <;> simp [hcheck]
        | some dst =>
          cases OscReader.asBlob r.2 with
          | error e => rfl
          | ok r' =>
            simp only [hcheck]
            cases oscFits AOO_MAX_PACKET_SIZE (relayOsc T addr.unmapped r'.1) <;> rfl
    next => rfl

/-- The kinds of socket. -/
theorem SocketFlags.permitted_cases {type : SocketFlags} (h : type.permitted = true) :
    type = ⟨true, false, false⟩ ∨ type = ⟨false, true, false⟩ ∨ type = ⟨true, true, false⟩ ∨
      type = ⟨false, true, true⟩ := by
  obtain ⟨ipv4, ipv6, mapped⟩ := type
  revert h
  cases ipv4 <;> cases ipv6 <;> cases mapped <;> decide

/-- Both relays accept the same addresses. -/
theorem checkAddr_eq {type : SocketFlags} (htype : type.permitted = true) {addr : IpAddress}
    (haddr : addr.Proper) (internalRelay : Bool) :
    (RelayServer.setup type internalRelay).checkAddr addr = type.checkAddr addr := by
  unfold RelayServer.checkAddr SocketFlags.checkAddr RelayServer.setup
  split
  next => rfl
  next =>
    cases h : addr.type with
    | unspec => exact absurd h haddr
    | ipv4 =>
      rcases SocketFlags.permitted_cases htype with rfl | rfl | rfl | rfl <;> rfl
    | ipv6 =>
      rcases SocketFlags.permitted_cases htype with rfl | rfl | rfl | rfl <;> rfl

/-- What is no address is refused by the library for a socket with IPv6 only, and by the server
never. -/
theorem checkAddr_unspec {type : SocketFlags} (htype : type.permitted = true) {addr : IpAddress}
    (haddr : ¬ addr.Proper) (internalRelay : Bool) :
    (RelayServer.setup type internalRelay).checkAddr addr = some addr ∧
      type.checkAddr addr = if type = ⟨false, true, false⟩ then none else some addr := by
  have hunspec : addr.type = .unspec := not_not.mp haddr
  have hmapped := IpAddress.not_isIpv4Mapped (a := addr) (by rw [hunspec]; nofun)
  have hsame : addr.ipv4Mapped = addr := if_neg (by rw [hunspec]; nofun)
  unfold RelayServer.checkAddr SocketFlags.checkAddr RelayServer.setup
  rw [hmapped, hunspec, hsame]
  rcases SocketFlags.permitted_cases htype with rfl | rfl | rfl | rfl <;> exact ⟨rfl, rfl⟩

/-- A message whose destination is no address, and which could be sent on. -/
def Undirected (T : AddressText) (src : IpAddress) : Datagram → Prop
  | .bin _ => False
  | .osc m => ∃ addr msg, decodeRelay T (.osc m) = some (addr, msg) ∧ ¬ addr.Proper ∧
      (relayOsc T src msg).size ≤ AOO_MAX_PACKET_SIZE

/-- When the two ways to check a destination lead to the same result. -/
theorem relayWith_eq_iff (T : AddressText) {type : SocketFlags} (htype : type.permitted = true)
    (internalRelay : Bool) (src : IpAddress) (d : Datagram) :
    relayWith T type.checkAddr src d =
        relayWith T (RelayServer.setup type internalRelay).checkAddr src d ↔
      ¬ (type = ⟨false, true, false⟩ ∧ Undirected T src d) := by
  unfold relayWith
  cases hdecode : decodeRelay T d with
  | none =>
    refine iff_of_true rfl fun h => ?_
    cases d with
    | bin data => exact h.2
    | osc m =>
      obtain ⟨addr, msg, haddr, -⟩ := h.2
      rw [hdecode] at haddr
      cases haddr
  | some content =>
    obtain ⟨addr, msg⟩ := content
    simp only []
    by_cases haddr : addr.Proper
    · rw [checkAddr_eq htype haddr]
      refine iff_of_true rfl fun h => ?_
      cases d with
      | bin data => exact h.2
      | osc m =>
        obtain ⟨addr', msg', hdecode', hproper, -⟩ := h.2
        rw [hdecode] at hdecode'
        cases hdecode'
        exact hproper haddr
    · obtain ⟨hserver, hlibrary⟩ := checkAddr_unspec htype haddr internalRelay
      rw [hserver, hlibrary]
      cases d with
      | bin data => exact absurd (proper_of_decodeRelay hdecode) haddr
      | osc m =>
        by_cases h6 : type = ⟨false, true, false⟩
        · rw [if_pos h6]
          simp only [outgoing, oscFits, h6, true_and]
          split
          next hfits =>
            refine iff_of_false (by rw [Option.map_some]; nofun) fun h => h ?_
            exact ⟨addr, msg, hdecode, haddr, hfits⟩
          next hfits =>
            refine iff_of_true rfl fun h => ?_
            obtain ⟨addr', msg', hdecode', -, hfits'⟩ := h
            rw [hdecode] at hdecode'
            cases hdecode'
            exact hfits hfits'
        · rw [if_neg h6]
          exact iff_of_true rfl fun h => h6 h.1

/-! ## What arrives -/

/-- What is sent on goes to `dst`, mapped or not, and has the sender and the payload. -/
def ReachesPeer (T : AddressText) (src dst : IpAddress) (msg : List UInt8) (out : Option Relayed) :
    Prop :=
  ∀ r, out = some r → r.dst.unmapped = dst ∧ decodeRelay T r.data = some (src, msg)

/-- A message that is not relayed reaches nobody. -/
theorem reachesPeer_none (T : AddressText) (src dst : IpAddress) (msg : List UInt8) :
    ReachesPeer T src dst msg none :=
  nofun

/-- A relayed one reaches the peer that it names, with sender and contents. -/
theorem reachesPeer_some {T : AddressText} {src dst : IpAddress} {msg : List UInt8} {r : Relayed} :
    ReachesPeer T src dst msg (some r) ↔
      r.dst.unmapped = dst ∧ decodeRelay T r.data = some (src, msg) := by
  constructor
  · intro h
    exact h r rfl
  · intro h r' hr'
    cases hr'
    exact h

/-- An address that is accepted stays as it is, or it is mapped by a dual-stack socket. -/
theorem checkAddr_cases {type : SocketFlags} (htype : type.permitted = true)
    {dst dst' : IpAddress} (hdst : dst.Proper) (h : type.checkAddr dst = some dst') :
    dst'.unmapped = dst ∧
      (dst' = dst ∧ (dst.type = .ipv4 → type.ipv4Mapped = false) ∨
        type.ipv4Mapped = true ∧ dst.type = .ipv4 ∧ dst' = dst.ipv4Mapped) := by
  unfold SocketFlags.checkAddr at h
  split at h
  next => cases h
  next hmapped =>
    have hself : dst.unmapped = dst := IpAddress.unmapped_eq (Bool.not_eq_true _ ▸ hmapped)
    split at h
    next h6 =>
      split at h
      next =>
        cases h
        exact ⟨hself, .inl ⟨rfl, by rw [h6]; nofun⟩⟩
      next => cases h
    next h6 =>
      have h4 : dst.type = .ipv4 := by
        cases htype : dst.type with
        | unspec => exact absurd htype hdst
        | ipv4 => rfl
        | ipv6 => exact absurd htype h6
      split at h
      next hipv4 =>
        cases h
        refine ⟨hself, .inl ⟨rfl, fun _ => ?_⟩⟩
        rcases SocketFlags.permitted_cases htype with rfl | rfl | rfl | rfl
        · rfl
        · rfl
        · rfl
        · cases hipv4
      next =>
        split at h
        next hon =>
          cases h
          exact ⟨(IpAddress.ipv4Mapped_spec h4).2, .inr ⟨hon, h4, rfl⟩⟩
        next => cases h

/-- A header is replaced by one of the same length. -/
theorem rewriteHeader_eq {src dst : IpAddress} (hsrc : src.Proper)
    (hlength : src.host.length = dst.host.length) (msg : List UInt8) :
    rewriteHeader (relayHeader dst ++ msg) src = relayHeader src ++ msg := by
  have hsame : (relayHeader src).length = (relayHeader dst).length := by
    rw [relayHeader_length, relayHeader_length, hlength]
  simp only [rewriteHeader]
  rw [binmsgWriteRelay_eq hsrc, if_pos (by rw [List.length_append]; omega), hsame, List.drop_left]

/-- A long header that is written over a short one takes part of the payload, or is not
written at all. -/
theorem decodeRelay_rewriteHeader_ne {T : AddressText} {src dst : IpAddress} (hsrc : src.Proper)
    (hdst : dst.Proper) (hlength : dst.host.length < src.host.length) (msg : List UInt8) :
    decodeRelay T (.bin (rewriteHeader (relayHeader dst ++ msg) src)) ≠ some (src, msg) := by
  simp only [rewriteHeader]
  rw [binmsgWriteRelay_eq hsrc]
  intro h
  split at h
  next hfits =>
    rw [decodeRelay_relayHeader T hsrc] at h
    have hrest : ((relayHeader dst ++ msg).drop (relayHeader src).length).length = msg.length := by
      rw [(Prod.mk.inj (Option.some.inj h)).2]
    rw [List.length_append] at hfits
    rw [List.length_drop, List.length_append, relayHeader_length, relayHeader_length] at hrest
    rw [relayHeader_length, relayHeader_length] at hfits
    omega
  next =>
    rw [List.length_nil, List.drop_zero, List.nil_append, decodeRelay_relayHeader T hdst] at h
    have hsame : dst = src := (Prod.mk.inj (Option.some.inj h)).1
    rw [hsame] at hlength
    omega

/-- A binary relay message is written if header and contents fit. -/
theorem writeRelayMessage_binary (T : AddressText) {addr : IpAddress} (haddr : addr.Proper)
    (msg : List UInt8) :
    writeRelayMessage T AOO_MAX_PACKET_SIZE msg addr true =
      if (relayHeader addr ++ msg).length ≤ AOO_MAX_PACKET_SIZE then
        some (.bin (relayHeader addr ++ msg)) else none := by
  have hheader : (relayHeader addr).length ≤ AOO_MAX_PACKET_SIZE := by
    rw [relayHeader_length]
    rcases IpAddress.proper_iff.mp haddr with h | h <;> rw [h] <;> decide
  have hne : relayHeader addr ++ msg ≠ [] := nofun
  unfold writeRelayMessage
  rw [if_pos rfl, binmsgWriteRelay_eq haddr, if_pos hheader]
  simp only [ge_iff_le, hne, ne_eq, not_false_eq_true, and_true]

/-- Binary messages arrive, but for those from an IPv6 address to an IPv4 address that the socket
has to map: the types of the addresses are compared when the destination is already mapped. -/
theorem arrives_binary_iff (T : AddressText) {type : SocketFlags} (htype : type.permitted = true)
    {src dst : IpAddress} (hsrc : src.Proper) (hdst : dst.Proper) (msg : List UInt8) :
    ReachesPeer T src dst msg (relayWith T type.checkAddr src (.bin (relayHeader dst ++ msg))) ↔
      ¬ (type.ipv4Mapped = true ∧ dst.type = .ipv4 ∧ src.type = .ipv6) := by
  unfold relayWith
  rw [decodeRelay_relayHeader T hdst]
  simp only []
  cases hcheck : type.checkAddr dst with
  | none =>
    refine iff_of_true (reachesPeer_none T src dst msg) ?_
    rintro ⟨hmapped, h4, -⟩
    -- A socket that maps addresses accepts all IPv4 addresses.
    have hnot := IpAddress.not_isIpv4Mapped (a := dst) (by rw [h4]; nofun)
    rw [SocketFlags.checkAddr, hnot, h4, hmapped] at hcheck
    split_ifs at hcheck <;> contradiction
  | some dst' =>
    obtain ⟨hunmapped, hcases⟩ := checkAddr_cases htype hdst hcheck
    simp only [outgoing]
    by_cases hsame : src.type = dst'.type
    · rw [if_pos hsame, Option.map_some, reachesPeer_some]
      simp only [hunmapped, true_and]
      rcases hcases with ⟨rfl, hplain⟩ | ⟨hmapped, h4, rfl⟩
      · have hlength : src.host.length = dst'.host.length := by
          rcases IpAddress.proper_iff.mp hsrc with h | h
          · rw [IpAddress.type_eq_ipv4.mpr h] at hsame
            rw [h, IpAddress.type_eq_ipv4.mp hsame.symm]
          · rw [IpAddress.type_eq_ipv6.mpr h] at hsame
            rw [h, IpAddress.type_eq_ipv6.mp hsame.symm]
        rw [rewriteHeader_eq hsrc hlength]
        refine iff_of_true (decodeRelay_relayHeader T hsrc msg) ?_
        rintro ⟨hmapped, h4, -⟩
        rw [hplain h4] at hmapped
        cases hmapped
      · have h6 : src.type = .ipv6 := hsame.trans (IpAddress.ipv4Mapped_spec h4).1
        have hlength : dst.host.length < src.host.length := by
          rw [IpAddress.type_eq_ipv4.mp h4, IpAddress.type_eq_ipv6.mp h6]
          decide
        refine iff_of_false (decodeRelay_rewriteHeader_ne hsrc hdst hlength msg) fun h => ?_
        exact h ⟨hmapped, h4, h6⟩
    · rw [if_neg hsame, writeRelayMessage_binary T hsrc]
      refine iff_of_true ?_ ?_
      · split
        next =>
          rw [Option.map_some, reachesPeer_some]
          exact ⟨hunmapped, decodeRelay_relayHeader T hsrc msg⟩
        next => exact reachesPeer_none T src dst msg
      · rintro ⟨hmapped, h4, h6⟩
        rcases hcases with ⟨-, hplain⟩ | ⟨-, -, rfl⟩
        · rw [hplain h4] at hmapped
          cases hmapped
        · exact hsame (h6.trans (IpAddress.ipv4Mapped_spec h4).1.symm)

/-- The condition for OSC messages: the sender and the destination have a port, or nothing is
sent on (the message with the sender does not fit, or the destination is refused). -/
def OscRelayable (T : AddressText) (type : SocketFlags) (src dst : IpAddress) (msg : List UInt8) :
    Prop :=
  (src.port ≠ 0 ∧ dst.port ≠ 0) ∨ AOO_MAX_PACKET_SIZE < (relayOsc T src msg).size ∨
    (dst.port ≠ 0 ∧ type.checkAddr dst = none)

/-- An address with a port arrives as it is. -/
theorem sent_eq {a : IpAddress} (ha : a.Proper) (hport : a.port ≠ 0) : a.sent = a := by
  refine if_pos ⟨?_, hport⟩
  simp only [IpAddress.valid, ne_eq, decide_eq_true_eq]
  rintro hnil
  rw [IpAddress.proper_iff, hnil] at ha
  simp at ha

/-- Without a port it arrives as no address. -/
theorem sent_eq_clear {a : IpAddress} (hport : a.port = 0) : a.sent = .clear :=
  if_neg fun h => h.2 hport

/-- OSC messages arrive at the server and at the library under the same condition. -/
theorem arrives_osc_iff {T : AddressText} {type : SocketFlags} (htype : type.permitted = true)
    {src dst : IpAddress} (hsrc : src.Proper) (hdst : dst.Proper) (hsrcName : T.Names src)
    (hdstName : T.Names dst) (msg : List UInt8) :
    (ReachesPeer T src dst msg (relayWith T type.checkAddr src (.osc (relayOsc T dst msg))) ∧
      ReachesPeer T src dst msg (relayWith T (RelayServer.setup type true).checkAddr src
        (.osc (relayOsc T dst msg)))) ↔ OscRelayable T type src dst msg := by
  simp only [relayWith, decodeRelay_relayOsc hdstName, outgoing, oscFits]
  unfold OscRelayable
  by_cases hfits : (relayOsc T src msg).size ≤ AOO_MAX_PACKET_SIZE
  · rw [if_pos hfits]
    simp only [Nat.not_lt.mpr hfits, false_or, Option.map_some]
    by_cases hport : dst.port = 0
    · -- The server sends to an address that is none.
      have hproper := IpAddress.not_proper_clear
      rw [sent_eq_clear hport, (checkAddr_unspec htype hproper true).1]
      refine iff_of_false (fun h => ?_) (fun h => ?_)
      · have hclear := (reachesPeer_some.mp h.2).1
        rw [show IpAddress.clear.unmapped = .clear from by decide] at hclear
        exact hproper (hclear ▸ hdst)
      · rcases h with ⟨-, h⟩ | ⟨h, -⟩ <;> exact h hport
    · rw [sent_eq hdst hport, checkAddr_eq htype hdst]
      cases hcheck : type.checkAddr dst with
      | none =>
        refine iff_of_true ?_ (.inr ⟨hport, rfl⟩)
        exact ⟨reachesPeer_none T src dst msg, reachesPeer_none T src dst msg⟩
      | some dst' =>
        have hunmapped := (checkAddr_cases htype hdst hcheck).1
        simp only [reachesPeer_some, hunmapped, decodeRelay_relayOsc hsrcName, true_and, and_self,
          Option.some.injEq, Prod.mk.injEq, and_true, reduceCtorEq, and_false, or_false]
        by_cases hsrcPort : src.port = 0
        · refine iff_of_false (fun h => ?_) (fun h => h.1 hsrcPort)
          rw [sent_eq_clear hsrcPort] at h
          exact IpAddress.not_proper_clear (h ▸ hsrc)
        · exact iff_of_true (sent_eq hsrc hsrcPort) ⟨hsrcPort, hport⟩
  · rw [if_neg hfits]
    refine iff_of_true ⟨?_, ?_⟩ (.inr (.inl (by omega)))
    · cases type.checkAddr dst.sent with
      | none => exact reachesPeer_none T src dst msg
      | some dst' => exact reachesPeer_none T src dst msg
    · cases (RelayServer.setup type true).checkAddr dst.sent with
      | none => exact reachesPeer_none T src dst msg
      | some dst' => exact reachesPeer_none T src dst msg

/-- The condition under which a relayed message arrives. -/
def Relayable (T : AddressText) (type : SocketFlags) (src dst : IpAddress) (msg : List UInt8) :
    Bool → Prop
  | true => ¬ (type.ipv4Mapped = true ∧ dst.type = .ipv4 ∧ src.type = .ipv6)
  | false => OscRelayable T type src dst msg

/-- **Relayed messages**: a message that was written for `dst` arrives there with the unmapped
address of the sender and its payload, through either relay, if and only if it is `Relayable`. The
two relays do the same with every datagram, but for messages without destination on a socket
with IPv6 only. -/
theorem relay_iff (T : AddressText) (type : SocketFlags) (htype : type.permitted = true)
    (src : IpAddress) (hsrc : src.Proper) :
    (∀ (dst : IpAddress) (msg : List UInt8) (binary : Bool) (d : Datagram), dst.Proper →
      T.Names src.unmapped → T.Names dst →
      writeRelayMessage T AOO_MAX_PACKET_SIZE msg dst binary = some d →
      (ReachesPeer T src.unmapped dst msg (aooHandleRelayMessage T d src type).toOption ∧
        ReachesPeer T src.unmapped dst msg ((RelayServer.setup type true).handleUdpPacket T d src) ∧
        (aooHandleRelayMessage T d src type).toOption =
          (RelayServer.setup type true).handleUdpPacket T d src ↔
        Relayable T type src.unmapped dst msg binary)) ∧
    ∀ d : Datagram,
      (aooHandleRelayMessage T d src type).toOption =
          (RelayServer.setup type true).handleUdpPacket T d src ↔
        ¬ (type = ⟨false, true, false⟩ ∧ Undirected T src.unmapped d) := by
  have hlibrary := fun d => aooHandleRelayMessage_eq T d src htype
  have hserver := fun d => handleUdpPacket_eq T (s := RelayServer.setup type true) rfl d src
  have hagree := relayWith_eq_iff T htype true src.unmapped
  constructor
  · intro dst msg binary d hdst hsrcName hdstName hwritten
    rw [hlibrary, hserver]
    cases binary with
    | true =>
      rw [writeRelayMessage_binary T hdst] at hwritten
      split at hwritten
      next =>
        cases hwritten
        have hsame := (hagree (.bin (relayHeader dst ++ msg))).mpr fun h => h.2
        rw [← hsame]
        have harrives := arrives_binary_iff T htype hsrc.unmapped hdst msg
        exact ⟨fun h => harrives.mp h.1, fun h => ⟨harrives.mpr h, harrives.mpr h, rfl⟩⟩
      next => cases hwritten
    | false =>
      simp only [writeRelayMessage, Bool.false_eq_true, if_false, oscFits] at hwritten
      split at hwritten
      next =>
        cases hwritten
        have harrives := arrives_osc_iff htype hsrc.unmapped hdst hsrcName hdstName msg
        refine ⟨fun h => harrives.mp ⟨h.1, h.2.1⟩, fun h => ?_⟩
        refine ⟨(harrives.mpr h).1, (harrives.mpr h).2, (hagree _).mpr ?_⟩
        rintro ⟨-, addr, msg', hdecode, hproper, hfits⟩
        rw [decodeRelay_relayOsc hdstName] at hdecode
        cases hdecode
        -- the relays only differ for a message without destination
        have hport : dst.port = 0 := by
          by_contra hport
          rw [sent_eq hdst hport] at hproper
          exact hproper hdst
        rcases h with h | h | h
        · exact h.2 hport
        · omega
        · exact h.1 hport
      next => cases hwritten
  · intro d
    rw [hlibrary, hserver]
    exact hagree d

/-- A sender that a dual-stack socket sees as `::ffff:192.168.0.2`. -/
def mappedSender : IpAddress := ⟨[0, 0, 0, 0, 0, 0, 0, 0, 0, 0, 255, 255, 192, 168, 0, 2], 50000⟩

/-- Its messages are relayed by the library and the server, in both formats. -/
theorem relay_mappedSender :
    (∃ d r, writeRelayMessage sampleText AOO_MAX_PACKET_SIZE [1, 2, 3]
        ⟨[203, 0, 113, 7], 50001⟩ true = some d ∧
      (aooHandleRelayMessage sampleText d mappedSender ⟨false, true, true⟩).toOption = some r ∧
      decodeRelay sampleText r.data = some (⟨[192, 168, 0, 2], 50000⟩, [1, 2, 3])) ∧
    ∃ d r, writeRelayMessage sampleText AOO_MAX_PACKET_SIZE [1, 2, 3]
        ⟨[203, 0, 113, 7], 50001⟩ false = some d ∧
      (RelayServer.setup ⟨false, true, true⟩ true).handleUdpPacket sampleText d mappedSender =
        some r ∧
      decodeRelay sampleText r.data = some (⟨[192, 168, 0, 2], 50000⟩, [1, 2, 3]) := by
  have hmain := (relay_iff sampleText ⟨false, true, true⟩ (by decide) mappedSender
    (fun h => by cases h)).1 ⟨[203, 0, 113, 7], 50001⟩ [1, 2, 3]
  have hdst : (⟨[203, 0, 113, 7], 50001⟩ : IpAddress).Proper := fun h => by cases h
  have hsrcName : sampleText.Names mappedSender.unmapped := fun _ => by decide
  have hdstName : sampleText.Names ⟨[203, 0, 113, 7], 50001⟩ := fun _ => by decide
  constructor
  · obtain ⟨d, r, hd, hr⟩ : ∃ d r, writeRelayMessage sampleText AOO_MAX_PACKET_SIZE [1, 2, 3]
        ⟨[203, 0, 113, 7], 50001⟩ true = some d ∧
        (aooHandleRelayMessage sampleText d mappedSender ⟨false, true, true⟩).toOption = some r :=
      ⟨_, _, rfl, rfl⟩
    have harrives := (hmain true d hdst hsrcName hdstName hd).mpr (by rintro ⟨-, -, h⟩; cases h)
    exact ⟨d, r, hd, hr, (harrives.1 r hr).2⟩
  · obtain ⟨d, r, hd, hr⟩ : ∃ d r, writeRelayMessage sampleText AOO_MAX_PACKET_SIZE [1, 2, 3]
        ⟨[203, 0, 113, 7], 50001⟩ false = some d ∧
        (RelayServer.setup ⟨false, true, true⟩ true).handleUdpPacket sampleText d mappedSender =
          some r :=
      ⟨_, _, rfl, rfl⟩
    have harrives := (hmain false d hdst hsrcName hdstName hd).mpr (.inl ⟨by decide, by decide⟩)
    exact ⟨d, r, hd, hr, (harrives.2.1 r hr).2⟩

/-- A message from `::1` to `203.0.113.7` through a dual-stack socket loses twelve bytes; and a
message to port 0 is refused by the library and sent nowhere by the server. -/
theorem relay_payload_cut :
    (∃ d r, writeRelayMessage sampleText AOO_MAX_PACKET_SIZE
        [1, 2, 3, 4, 5, 6, 7, 8, 9, 10, 11, 12, 13, 14, 15, 16] ⟨[203, 0, 113, 7], 50001⟩ true =
          some d ∧
      (aooHandleRelayMessage sampleText d ⟨[0, 0, 0, 0, 0, 0, 0, 0, 0, 0, 0, 0, 0, 0, 0, 1], 9999⟩
        ⟨false, true, true⟩).toOption = some r ∧
      decodeRelay sampleText r.data =
        some (⟨[0, 0, 0, 0, 0, 0, 0, 0, 0, 0, 0, 0, 0, 0, 0, 1], 9999⟩, [13, 14, 15, 16])) ∧
    ∃ d, writeRelayMessage sampleText AOO_MAX_PACKET_SIZE [1, 2, 3] ⟨[203, 0, 113, 7], 0⟩ false =
        some d ∧
      aooHandleRelayMessage sampleText d mappedSender ⟨false, true, false⟩ = .error .notPermitted ∧
      ((RelayServer.setup ⟨false, true, false⟩ true).handleUdpPacket sampleText d mappedSender).map
        (·.dst) = some .clear :=
  ⟨⟨_, _, rfl, rfl, rfl⟩, _, rfl, rfl, rfl⟩

end Aoo.Net
