import Aoo.Net.Effect
import Aoo.Net.Client

/-!
# The format of the server's messages

What the server writes into its TCP messages (`client_endpoint.cpp`, `server.cpp`), and what the
handlers of the client read from them (`client.cpp`). A message is a pattern with a list
of arguments, written by one program and read by position in the other. Optional arguments are
pairs, which are two nils if there is nothing.

Names of addresses are made and read by the system (`inet_ntop`, `inet_pton`), so they are a
parameter here (`AddressText`).

Main result: `receive_osc_iff`, which says what a client gets of what a server means.
-/

namespace Aoo.Net

open Lib

def kAooDataUnspecified : Int := -1

/-! ## Addresses -/

/-- `inet_ntop` and `inet_pton`. -/
structure AddressText where
  ntop : List UInt8 → String
  pton : String → Option (List UInt8)

/-- An address that is not valid. -/
def IpAddress.clear : IpAddress := ⟨[], 0⟩

/-- `ip_address::valid` -/
def IpAddress.valid (a : IpAddress) : Bool := a.host ≠ []

/-- `ip_address::is_ipv4_mapped` -/
def IpAddress.isIpv4Mapped (a : IpAddress) : Bool :=
  a.host.length = 16 ∧ a.host.take 12 = [0, 0, 0, 0, 0, 0, 0, 0, 0, 0, 255, 255]

/-- `ip_address::name` -/
def AddressText.name (T : AddressText) (a : IpAddress) : String :=
  if a.valid then T.ntop a.host else ""

/-- The constructor of `ip_address` that reads a name. -/
def AddressText.address (T : AddressText) (ip : String) (port : UInt16) : IpAddress :=
  if ip = "" ∨ port = 0 then .clear
  else
    match T.pton ip with
    | some host => ⟨host, port⟩
    | none => .clear

/-! ## The server writes -/

/-- `operator<<` for metadata. -/
def oscMetadata : Option AooData → List OscArg
  | some md =>
    if md.type ≠ kAooDataUnspecified then [.int32 md.type, .blob md.data] else [.nil, .nil]
  | none => [.nil, .nil]

/-- `operator<<` for `ip_host`. -/
def oscHost (host : IpHost) : List OscArg :=
  if host.valid then [.string host.name, .int32 host.port] else [.nil, .nil]

/-- `operator<<` for `ip_address`. -/
def oscAddress (T : AddressText) (a : IpAddress) : List OscArg :=
  [.string (T.name a), .int32 a.port.toNat]

/-- The cast of flags to `int32_t`. -/
def oscFlags (flags : Nat) : OscArg := .int32 (signed 4294967296 flags)

/-- The pattern of `send_error`. -/
def RequestType.pattern : RequestType → ClientPattern
  | .login => .login
  | .groupJoin => .groupJoin
  | .groupLeave => .groupLeave
  | .groupUpdate => .groupUpdate
  | .userUpdate => .userUpdate
  | .custom => .request

/-- The pattern of a message. -/
def ClientMessage.pattern : ClientMessage → ClientPattern
  | .login .. => .login
  | .groupJoin .. => .groupJoin
  | .groupLeave _ => .groupLeave
  | .groupUpdate .. => .groupUpdate
  | .userUpdate .. => .userUpdate
  | .request .. => .request
  | .error type .. => type.pattern
  | .peerJoin _ => .peerJoin
  | .peerLeave .. => .peerLeave
  | .groupChanged .. => .groupChanged
  | .userChanged .. => .userChanged
  | .peerChanged .. => .peerChanged
  | .groupEject _ => .groupEject
  | .pong => .pong

/-- The arguments of a message. The flags of a user are those that `user::flags` returns,
which is a `bool`. -/
def ClientMessage.args (T : AddressText) : ClientMessage → List OscArg
  | .login token version id metadata =>
    [.int32 token, .int32 kAooErrorNone, .string version, .int32 id, .int32 0] ++
      oscMetadata metadata
  | .groupJoin token r =>
    [.int32 token, .int32 kAooErrorNone, .int32 r.groupId, oscFlags r.groupFlags] ++
      (oscMetadata r.groupMetadata ++
      ([.int32 r.userId, .int32 (if r.userFlags = 0 then 0 else 1)] ++
      (oscMetadata r.userMetadata ++ (oscMetadata r.privateMetadata ++ oscHost r.relay))))
  | .groupLeave token => [.int32 token, .int32 kAooErrorNone]
  | .groupUpdate token metadata | .userUpdate token metadata =>
    [.int32 token, .int32 kAooErrorNone] ++ oscMetadata metadata
  | .request token flags data =>
    [.int32 token, .int32 kAooErrorNone, oscFlags flags] ++ oscMetadata (some data)
  | .error _ token result code message =>
    [.int32 token, .int32 result.code, .int32 code, .string message]
  | .peerJoin p =>
    [.string p.groupName, .int32 p.groupId, .string p.userName, .int32 p.userId,
      .string p.version, oscFlags p.flags] ++
      (oscMetadata p.metadata ++ (oscHost p.relay ++
      (.int32 p.addresses.length :: p.addresses.flatMap (oscAddress T))))
  | .peerLeave group user => [.int32 group, .int32 user]
  | .groupChanged group user metadata | .userChanged group user metadata
  | .peerChanged group user metadata => [.int32 group, .int32 user] ++ oscMetadata metadata
  | .groupEject group => [.int32 group]
  | .pong => []

/-- A message as it is sent. -/
def ClientMessage.osc (T : AddressText) (m : ClientMessage) : OscMessage :=
  ⟨.client m.pattern, m.args T⟩

/-- All that the server sends: also pings, and notifications by the user of the server. -/
inductive TcpMessage
  | message (m : ClientMessage)
  | notification (data : AooData)
  | ping
  deriving DecidableEq, Repr

/-- The OSC message. `send_notification` leaves out the type of the data. -/
def TcpMessage.osc (T : AddressText) : TcpMessage → OscMessage
  | .message m => m.osc T
  | .notification data => ⟨.client .message, [.blob data.data]⟩
  | .ping => ⟨.client .ping, []⟩

/-! ## The client reads -/

/-- The exceptions of oscpack when arguments are read. -/
inductive OscException
  | missingArgument
  | wrongArgumentType
  | malformedMessage
  | malformedPacket
  deriving DecidableEq, Repr

/-- Arguments are read one after the other. -/
abbrev OscReader := StateT (List OscArg) (Except OscException)

namespace OscReader

/-- `AsInt32` -/
def asInt32 : OscReader Int
  | [] => .error .missingArgument
  | .int32 v :: it => .ok (v, it)
  | _ :: _ => .error .wrongArgumentType

/-- `AsString` -/
def asString : OscReader String
  | [] => .error .missingArgument
  | .string s :: it => .ok (s, it)
  | _ :: _ => .error .wrongArgumentType

/-- `AsBlob` -/
def asBlob : OscReader (List UInt8)
  | [] => .error .missingArgument
  | .blob data :: it => .ok (data, it)
  | _ :: _ => .error .wrongArgumentType

/-- `IsNil`, for an optional pair: the two nils are skipped. -/
def skipNil : OscReader Bool
  | .nil :: it => .ok (true, it.drop 1)
  | it => .ok (false, it)

/-- The cast of an `int32_t` to flags. -/
def asFlags : OscReader Nat := do return unsigned 4294967296 (← asInt32)

/-- `osc_read_metadata` -/
def metadata : OscReader (Option AooData) := do
  if ← skipNil then return none
  let type ← asInt32
  let data ← asBlob
  if data = [] then throw .malformedMessage
  return some ⟨type, data⟩

/-- `osc_read_host`. The port is stored in 16 bits. -/
def host : OscReader (Option IpHost) := do
  if ← skipNil then return none
  let name ← asString
  let port := unsigned 65536 (← asInt32)
  if port = 0 then throw .malformedPacket
  return some ⟨name, port⟩

/-- `osc_read_address` -/
def address (T : AddressText) : OscReader IpAddress := do
  let hostname ← asString
  let port ← asInt32
  return T.address hostname (UInt16.ofNat (unsigned 65536 port))

/-- The loop that reads the addresses of a peer. -/
def addresses (T : AddressText) : Nat → OscReader (List IpAddress)
  | 0 => return []
  | n + 1 => do
    let a ← address T
    let as ← addresses T n
    return a :: as

end OscReader

open OscReader

/-- What `handle_peer_join` keeps of the addresses of a peer. -/
def IpAddress.usable (localIpv4 a : IpAddress) : Bool :=
  !a.isIpv4Mapped && a.valid && a ≠ localIpv4

/-- `Client::handle_peer_join`, the arguments. -/
def readPeerJoin (T : AddressText) (localIpv4 : IpAddress) : OscReader PeerJoin := do
  let groupName ← asString
  let groupId ← asInt32
  let userName ← asString
  let userId ← asInt32
  let version ← asString
  let flags ← asFlags
  let metadata ← metadata
  let relay ← host
  let addrcount ← asInt32
  let addrlist ← addresses T addrcount.toNat
  return {
    groupName, groupId, userName, userId, version, flags, metadata
    relay := relay.getD {}
    addresses := addrlist.filter (localIpv4.usable ·) }

/-- The end of an error reply. -/
def readError (type : RequestType) (token result : Int) : OscReader ClientMessage := do
  let code ← asInt32
  let message ← asString
  return .error type token (.ofCode result) code message

/-- The kind of request that a command makes. -/
def Command.type : Command → RequestType
  | .groupJoin _ => .groupJoin
  | .groupLeave _ => .groupLeave
  | .groupUpdate .. => .groupUpdate
  | .userUpdate .. => .userUpdate
  | .custom .. => .custom

/-- `Client::handle_response`, by the kind of command. The metadata in the reply to an update
is not read: the client reports what it has sent. -/
def readResponse (cmd : Command) : OscReader ClientMessage := do
  let token ← asInt32
  let result ← asInt32
  if result ≠ kAooErrorNone then readError cmd.type token result
  else
    match cmd with
    | .groupJoin _ =>
      let groupId ← asInt32
      let groupFlags ← asFlags
      let groupMetadata ← metadata
      let userId ← asInt32
      let userFlags ← asFlags
      let userMetadata ← metadata
      let privateMetadata ← metadata
      let relay ← host
      return .groupJoin token {
        groupId, groupFlags, groupMetadata, userId, userFlags, userMetadata, privateMetadata
        relay := relay.getD {} }
    | .groupLeave _ => return .groupLeave token
    | .groupUpdate _ md => return .groupUpdate token (some md)
    | .userUpdate _ md => return .userUpdate token (some md)
    | .custom _ _ =>
      let flags ← asFlags
      match ← metadata with
      | some data => return .request token flags data
      | none => throw .malformedMessage

/-- `Client::handle_login` -/
def readLogin : OscReader ClientMessage := do
  let token ← asInt32
  let result ← asInt32
  if result ≠ kAooErrorNone then readError .login token result
  else
    let version ← asString
    let id ← asInt32
    let _ ← asInt32
    return .login token version id (← metadata)

/-- The handlers of changes: the metadata must be there. -/
def readChanged (m : Int → Int → Option AooData → ClientMessage) : OscReader ClientMessage := do
  let group ← asInt32
  let user ← asInt32
  match ← metadata with
  | some md => return m group user (some md)
  | none => throw .malformedMessage

/-- `Client::handle_server_message`: what the handler of a message gets. A reply is read by
the request that it answers, and is ignored if there is none. -/
def readServerMessage (T : AddressText) (localIpv4 : IpAddress) (pending : Int → Option Command)
    (pattern : ClientPattern) : OscReader (Option TcpMessage) := do
  match pattern with
  | .ping => return some .ping
  | .pong => return some (.message .pong)
  | .peerJoin => return some (.message (.peerJoin (← readPeerJoin T localIpv4)))
  | .peerLeave =>
    let group ← asInt32
    let user ← asInt32
    return some (.message (.peerLeave group user))
  | .peerChanged => return some (.message (← readChanged .peerChanged))
  | .login => return some (.message (← readLogin))
  | .message =>
    match ← metadata with
    | some data => return some (.notification data)
    | none => throw .malformedMessage
  | .groupChanged => return some (.message (← readChanged .groupChanged))
  | .userChanged => return some (.message (← readChanged .userChanged))
  | .groupEject => return some (.message (.groupEject (← asInt32)))
  | .groupJoin | .groupLeave | .groupUpdate | .userUpdate | .request =>
    let it ← get
    let token ← asInt32
    match pending token with
    | some cmd =>
      set it
      return some (.message (← readResponse cmd))
    | none => return none

/-- What the client gets of an OSC message. -/
def receive (T : AddressText) (localIpv4 : IpAddress) (pending : Int → Option Command)
    (m : OscMessage) : Except OscException (Option TcpMessage) :=
  match m.address with
  | .client pattern =>
    (readServerMessage T localIpv4 pending pattern m.args).map Prod.fst
  | _ => .ok none

/-! ## What arrives -/

/-- Metadata whose type is not specified is not sent. -/
def sentMetadata : Option AooData → Option AooData
  | some md => if md.type ≠ kAooDataUnspecified then some md else none
  | none => none

/-- There is no metadata, or it has a type. -/
def Typed (md : Option AooData) : Prop := ∀ d ∈ md, d.type ≠ kAooDataUnspecified

/-- There is no metadata, or it is not empty. -/
def NonEmpty (md : Option AooData) : Prop := ∀ d ∈ md, d.data ≠ []

/-- Metadata with a type arrives as it was sent. -/
theorem sentMetadata_eq_iff (md : Option AooData) : sentMetadata md = md ↔ Typed md := by
  cases md with
  | none => simp [sentMetadata, Typed]
  | some d =>
    rw [sentMetadata, Typed]
    split
    next h => simp [h]
    next h => simp [h]

/-- Metadata is read as it was written, and the rest is left. -/
theorem metadata_oscMetadata {md : Option AooData} (h : NonEmpty md) (it : List OscArg) :
    metadata (oscMetadata md ++ it) = .ok (sentMetadata md, it) := by
  cases md with
  | none => rfl
  | some d =>
    have hne : d.data ≠ [] := h d rfl
    rw [oscMetadata, sentMetadata]
    split
    next =>
      show (if d.data = [] then _ else _ : OscReader _) it = _
      rw [if_neg hne]
      rfl
    next => rfl

/-- A host that can be sent: none at all, or one with a port. -/
def IpHost.Sendable (h : IpHost) : Prop := h = {} ∨ (0 < h.port ∧ h.port < 65536)

/-- So is a host. -/
theorem host_oscHost {h : IpHost} (hs : h.Sendable) (it : List OscArg) :
    ∃ o : Option IpHost, host (oscHost h ++ it) = .ok (o, it) ∧ o.getD {} = h := by
  rcases hs with rfl | ⟨hpos, hlt⟩
  · exact ⟨none, rfl, rfl⟩
  · have hvalid : h.valid = true := decide_eq_true hpos
    have hport : (unsigned 65536 h.port : Int) = h.port :=
      unsigned_of_lt (by omega) (by push_cast; omega)
    refine ⟨some h, ?_, rfl⟩
    rw [oscHost, if_pos hvalid]
    show (if unsigned 65536 h.port = 0 then throw .malformedPacket
      else pure (some ⟨h.name, unsigned 65536 h.port⟩) : OscReader (Option IpHost)) it = _
    rw [if_neg (by omega), hport]
    rfl

/-- So are flags of 32 bits. -/
theorem asFlags_oscFlags {flags : Nat} (h : flags < 4294967296) (it : List OscArg) :
    asFlags (oscFlags flags :: it) = .ok (flags, it) := by
  show Except.ok (unsigned 4294967296 (signed 4294967296 flags), it) = _
  rw [unsigned, signed, Int.bmod_emod, Int.emod_eq_of_lt (by omega) (by push_cast; omega)]
  rfl

/-- A flag that was cast to `bool`. -/
theorem asFlags_bool (flags : Nat) (it : List OscArg) :
    asFlags (.int32 (if flags = 0 then 0 else 1) :: it) = .ok (if flags = 0 then 0 else 1, it) := by
  split <;> rfl

/-- An address after it was written and read. An address without port becomes invalid. -/
def IpAddress.sent (a : IpAddress) : IpAddress := if a.valid ∧ a.port ≠ 0 then a else .clear

/-- The system reads the name that it makes of an address. -/
def AddressText.Names (T : AddressText) (a : IpAddress) : Prop :=
  a.valid = true → T.ntop a.host ≠ "" ∧ T.pton (T.ntop a.host) = some a.host

/-- An address is written as text and found from it. -/
theorem address_name {T : AddressText} {a : IpAddress} (h : T.Names a) :
    T.address (T.name a) a.port = a.sent := by
  rw [AddressText.address, AddressText.name, IpAddress.sent]
  cases hv : a.valid with
  | false => simp
  | true =>
    obtain ⟨hne, hread⟩ := h hv
    by_cases hport : a.port = 0
    · simp [hport]
    · simp [hport, hne, hread]

/-- An address is read as it was written. -/
theorem address_oscAddress {T : AddressText} {a : IpAddress} (h : T.Names a) (it : List OscArg) :
    address T (oscAddress T a ++ it) = .ok (a.sent, it) := by
  have hport : UInt16.ofNat (unsigned 65536 (a.port.toNat : Int)) = a.port := by
    have hlt := a.port.toNat_lt
    rw [unsigned_toNat_of_lt (by omega) (by push_cast; omega), Int.toNat_natCast,
      UInt16.ofNat_toNat]
  show Except.ok (T.address (T.name a) (UInt16.ofNat (unsigned 65536 (a.port.toNat : Int))), it) = _
  rw [hport, address_name h]

/-- So are several addresses. -/
theorem addresses_oscAddress {T : AddressText} {as : List IpAddress} (h : ∀ a ∈ as, T.Names a)
    (it : List OscArg) :
    addresses T as.length (as.flatMap (oscAddress T) ++ it) = .ok (as.map IpAddress.sent, it) := by
  induction as with
  | nil => rfl
  | cons a as ih =>
    have hrest := ih fun b hb => h b (List.mem_cons_of_mem a hb)
    rw [List.flatMap_cons, List.append_assoc]
    show (do
      let (a, it) ← address T (oscAddress T a ++ (as.flatMap (oscAddress T) ++ it))
      let (as, it) ← addresses T as.length it
      Except.ok (a :: as, it) : Except OscException _) = _
    rw [address_oscAddress (h a List.mem_cons_self)]
    show (do
      let (as, it) ← addresses T as.length (as.flatMap (oscAddress T) ++ it)
      Except.ok (a.sent :: as, it) : Except OscException _) = _
    rw [hrest]
    rfl

/-- The addresses arrive if each can be used by the client. -/
theorem sentAddresses_eq_iff (localIpv4 : IpAddress) (as : List IpAddress) :
    (as.map IpAddress.sent).filter (localIpv4.usable ·) = as ↔
      ∀ a ∈ as, localIpv4.usable a = true ∧ a.port ≠ 0 := by
  constructor
  · intro h
    -- Nothing can be missing, so nothing was filtered out.
    have hlen : ((as.map IpAddress.sent).filter (localIpv4.usable ·)).length =
        (as.map IpAddress.sent).length := by
      rw [h, List.length_map]
    have hall := List.length_filter_eq_length_iff.mp hlen
    have hmap : as.map IpAddress.sent = as :=
      (List.filter_eq_self.mpr hall).symm.trans h
    intro a ha
    have husable : localIpv4.usable a = true := hall a (hmap.symm ▸ ha)
    have hsent : a.sent = a := by
      exact List.map_inj_left.mp (hmap.trans (List.map_id as).symm) a ha
    refine ⟨husable, fun hport => ?_⟩
    rw [IpAddress.sent, if_neg (by simp [hport])] at hsent
    rw [← hsent] at husable
    simp [IpAddress.usable, IpAddress.valid, IpAddress.clear] at husable
  · intro h
    have hmap : as.map IpAddress.sent = as := by
      refine (List.map_inj_left.mpr fun a ha => ?_).trans (List.map_id as)
      obtain ⟨husable, hport⟩ := h a ha
      simp only [IpAddress.usable, Bool.and_eq_true] at husable
      exact if_pos ⟨husable.1.2, hport⟩
    rw [hmap]
    exact List.filter_eq_self.mpr fun a ha => (h a ha).1

/-! ## Messages -/

/-- A reader goes on with what the one before has left. -/
theorem bind_ok {α β : Type} {x : OscReader α} {f : α → OscReader β} {it r : List OscArg} {a : α}
    (h : x it = .ok (a, r)) : (x >>= f) it = f a r := by
  show (x it >>= fun r => f r.1 r.2) = _
  rw [h]
  rfl

/-- What `readServerMessage` makes of the result of a handler. -/
theorem map_message (x : OscReader ClientMessage) (it : List OscArg) :
    ((do return some (.message (← x)) : OscReader (Option TcpMessage)) it).map Prod.fst =
      (x it).map fun r => some (.message r.1) := by
  show ((x it >>= fun r => pure (some (.message r.1), r.2) :
    Except OscException (Option TcpMessage × List OscArg))).map Prod.fst = _
  cases x it with
  | error e => rfl
  | ok r => rfl

/-- What a message replies to, with the token. -/
def ClientMessage.reply? : ClientMessage → Option (RequestType × Int)
  | .groupJoin token _ => some (.groupJoin, token)
  | .groupLeave token => some (.groupLeave, token)
  | .groupUpdate token _ => some (.groupUpdate, token)
  | .userUpdate token _ => some (.userUpdate, token)
  | .request token .. => some (.custom, token)
  | .error type token .. => if type = .login then none else some (type, token)
  | _ => none

/-- A reply answers a request that is pending. -/
def ClientMessage.Awaited (pending : Int → Option Command) (m : ClientMessage) : Prop :=
  ∀ type token, m.reply? = some (type, token) → ∃ cmd, pending token = some cmd ∧ cmd.type = type

/-- What the server can put in a message: its numbers are in their range, and metadata is
not empty. Updates are not refused by a message (see `sendError`). -/
def ClientMessage.Valid : ClientMessage → Prop
  | .login _ _ _ md => NonEmpty md
  | .groupJoin _ r =>
    r.groupFlags < 4294967296 ∧ NonEmpty r.groupMetadata ∧ NonEmpty r.userMetadata ∧
      NonEmpty r.privateMetadata ∧ r.relay.Sendable
  | .request _ flags data => flags < 4294967296 ∧ data.data ≠ []
  | .error type _ result _ _ =>
    type ≠ .groupUpdate ∧ type ≠ .userUpdate ∧ result.code ≠ kAooErrorNone ∧
      .ofCode result.code = result
  | .peerJoin p => p.flags < 4294967296 ∧ NonEmpty p.metadata ∧ p.relay.Sendable
  | .groupChanged _ _ md | .userChanged _ _ md | .peerChanged _ _ md => NonEmpty md
  | .groupLeave _ | .groupUpdate .. | .userUpdate .. | .peerLeave .. | .groupEject _ | .pong => True

/-- The addresses in a message. -/
def ClientMessage.addresses : ClientMessage → List IpAddress
  | .peerJoin p => p.addresses
  | _ => []

/-- The contents that arrive as they were meant: metadata has a type and is there when a change is
announced, the flags of a user are 0 or 1, the reply to an update says what was
requested, and the addresses of a peer are of use for the client. -/
def ClientMessage.Faithful (localIpv4 : IpAddress) (pending : Int → Option Command) :
    ClientMessage → Prop
  | .login _ _ _ md => Typed md
  | .groupJoin _ r =>
    Typed r.groupMetadata ∧ r.userFlags ≤ 1 ∧ Typed r.userMetadata ∧ Typed r.privateMetadata
  | .groupUpdate token md => ∃ group md', pending token = some (.groupUpdate group md') ∧ md = some md'
  | .userUpdate token md => ∃ group md', pending token = some (.userUpdate group md') ∧ md = some md'
  | .request _ _ data => data.type ≠ kAooDataUnspecified
  | .peerJoin p => Typed p.metadata ∧ ∀ a ∈ p.addresses, localIpv4.usable a = true ∧ a.port ≠ 0
  | .groupChanged _ _ md | .userChanged _ _ md | .peerChanged _ _ md => md.isSome ∧ Typed md
  | .groupLeave _ | .error .. | .peerLeave .. | .groupEject _ | .pong => True

section

variable {T : AddressText} {localIpv4 : IpAddress} {pending : Int → Option Command}

/-- A reply is read by the request that it answers. -/
theorem receive_reply (type : RequestType) {token : Int} {args : List OscArg} {cmd : Command}
    (htype : type ≠ .login) (hcmd : pending token = some cmd) :
    receive T localIpv4 pending ⟨.client type.pattern, .int32 token :: args⟩ =
      (readResponse cmd (.int32 token :: args)).map fun r => some (.message r.1) := by
  have hresponse : ((do
      let it ← get
      let token ← asInt32
      match pending token with
      | some cmd =>
        set it
        return some (.message (← readResponse cmd))
      | none => return none : OscReader (Option TcpMessage)) (.int32 token :: args)).map Prod.fst =
        (readResponse cmd (.int32 token :: args)).map fun r => some (.message r.1) := by
    rw [bind_ok (a := .int32 token :: args) (r := .int32 token :: args) rfl,
      bind_ok (a := token) (r := args) rfl, hcmd]
    exact map_message (readResponse cmd) _
  cases type with
  | login => exact absurd rfl htype
  | groupJoin => exact hresponse
  | groupLeave => exact hresponse
  | groupUpdate => exact hresponse
  | userUpdate => exact hresponse
  | custom => exact hresponse

/-- The response to a join is read in the order in which it was written. -/
theorem readResponse_groupJoin {r : GroupJoinReply} {token : Int}
    (hvalid : (ClientMessage.groupJoin token r).Valid) (q : Server.GroupJoinRequest) :
    readResponse (.groupJoin q) ((ClientMessage.groupJoin token r).args T) =
      .ok (.groupJoin token { r with
        groupMetadata := sentMetadata r.groupMetadata
        userFlags := if r.userFlags = 0 then 0 else 1
        userMetadata := sentMetadata r.userMetadata
        privateMetadata := sentMetadata r.privateMetadata }, []) := by
  obtain ⟨hflags, hgroup, huser, hprivate, hrelay⟩ := hvalid
  rw [ClientMessage.args]
  refine (bind_ok (a := token) rfl).trans ?_
  refine (bind_ok (a := kAooErrorNone) rfl).trans ?_
  refine (bind_ok (a := r.groupId) rfl).trans ?_
  refine (bind_ok (asFlags_oscFlags hflags _)).trans ?_
  refine (bind_ok (metadata_oscMetadata hgroup _)).trans ?_
  refine (bind_ok (a := r.userId) rfl).trans ?_
  refine (bind_ok (asFlags_bool r.userFlags _)).trans ?_
  refine (bind_ok (metadata_oscMetadata huser _)).trans ?_
  refine (bind_ok (metadata_oscMetadata hprivate _)).trans ?_
  obtain ⟨o, hhost, ho⟩ := host_oscHost hrelay []
  rw [List.append_nil] at hhost
  refine (bind_ok hhost).trans ?_
  rw [ho]
  rfl

/-- So is the message about a peer. -/
theorem readPeerJoin_args {p : PeerJoin} (hvalid : (ClientMessage.peerJoin p).Valid)
    (hnames : ∀ a ∈ p.addresses, T.Names a) :
    readPeerJoin T localIpv4 ((ClientMessage.peerJoin p).args T) =
      .ok ({ p with
        metadata := sentMetadata p.metadata
        addresses := (p.addresses.map IpAddress.sent).filter (localIpv4.usable ·) }, []) := by
  obtain ⟨hflags, hmetadata, hrelay⟩ := hvalid
  have haddresses := addresses_oscAddress hnames []
  rw [List.append_nil] at haddresses
  rw [ClientMessage.args]
  refine (bind_ok (a := p.groupName) rfl).trans ?_
  refine (bind_ok (a := p.groupId) rfl).trans ?_
  refine (bind_ok (a := p.userName) rfl).trans ?_
  refine (bind_ok (a := p.userId) rfl).trans ?_
  refine (bind_ok (a := p.version) rfl).trans ?_
  refine (bind_ok (asFlags_oscFlags hflags _)).trans ?_
  refine (bind_ok (metadata_oscMetadata hmetadata _)).trans ?_
  obtain ⟨o, hhost, ho⟩ := host_oscHost hrelay
    (.int32 p.addresses.length :: p.addresses.flatMap (oscAddress T))
  refine (bind_ok hhost).trans ?_
  refine (bind_ok (a := (p.addresses.length : Int)) rfl).trans ?_
  refine (bind_ok haddresses).trans ?_
  rw [ho]
  rfl

/-- So is the response to a login. -/
theorem readLogin_args {token id : Int} {version : String} {md : Option AooData} (hmd : NonEmpty md) :
    readLogin ((ClientMessage.login token version id md).args T) =
      .ok (.login token version id (sentMetadata md), []) := by
  have hmetadata := metadata_oscMetadata hmd []
  rw [List.append_nil] at hmetadata
  rw [ClientMessage.args]
  refine (bind_ok (a := token) rfl).trans ?_
  refine (bind_ok (a := kAooErrorNone) rfl).trans ?_
  refine (bind_ok (a := version) rfl).trans ?_
  refine (bind_ok (a := id) rfl).trans ?_
  refine (bind_ok (a := 0) rfl).trans ?_
  exact (bind_ok hmetadata).trans rfl

/-- A change without metadata has nothing to tell. -/
theorem readChanged_args {m : Int → Int → Option AooData → ClientMessage} {group user : Int}
    {md : Option AooData} (hmd : NonEmpty md) :
    readChanged m ([.int32 group, .int32 user] ++ oscMetadata md) =
      match sentMetadata md with
      | some d => .ok (m group user (some d), [])
      | none => .error .malformedMessage := by
  have hmetadata := metadata_oscMetadata hmd []
  rw [List.append_nil] at hmetadata
  refine (bind_ok (a := group) rfl).trans ?_
  refine (bind_ok (a := user) rfl).trans ?_
  refine (bind_ok hmetadata).trans ?_
  cases sentMetadata md with
  | none => rfl
  | some d => rfl

/-- The response to a custom request needs a type for its data. -/
theorem readResponse_request {flags : Nat} {data : AooData} (hflags : flags < 4294967296)
    (hdata : data.data ≠ []) (token : Int) (flags' : Nat) (data' : AooData) :
    readResponse (.custom flags' data') ((ClientMessage.request token flags data).args T) =
      match sentMetadata (some data) with
      | some d => .ok (.request token flags d, [])
      | none => .error .malformedMessage := by
  have hnonEmpty : NonEmpty (some data) := by
    intro d hd
    cases hd
    exact hdata
  have hmetadata := metadata_oscMetadata hnonEmpty []
  rw [List.append_nil] at hmetadata
  rw [ClientMessage.args]
  refine (bind_ok (a := token) rfl).trans ?_
  refine (bind_ok (a := kAooErrorNone) rfl).trans ?_
  refine (bind_ok (asFlags_oscFlags hflags _)).trans ?_
  refine (bind_ok hmetadata).trans ?_
  cases sentMetadata (some data) with
  | none => rfl
  | some d => rfl

/-- An error is read the same for all requests. -/
theorem readResponse_error {result : AooError} (hresult : result.code ≠ kAooErrorNone)
    (hcode : .ofCode result.code = result) (cmd : Command) (token code : Int) (message : String) :
    readResponse cmd ((ClientMessage.error cmd.type token result code message).args T) =
      .ok (.error cmd.type token result code message, []) := by
  rw [ClientMessage.args]
  refine (bind_ok (a := token) rfl).trans ?_
  refine (bind_ok (a := result.code) rfl).trans ?_
  rw [if_pos hresult]
  show Except.ok (ClientMessage.error cmd.type token (.ofCode result.code) code message, []) = _
  rw [hcode]

/-- A login response is received as sent if its metadata has a type. -/
theorem receive_login_iff {token id : Int} {version : String} {md : Option AooData}
    (hmd : NonEmpty md) :
    receive T localIpv4 pending ((ClientMessage.login token version id md).osc T) =
        .ok (some (.message (.login token version id md))) ↔ Typed md := by
  have hread : receive T localIpv4 pending ((ClientMessage.login token version id md).osc T) =
      .ok (some (.message (.login token version id (sentMetadata md)))) :=
    congrArg (Except.map Prod.fst) ((bind_ok (readLogin_args (T := T) hmd)).trans rfl)
  rw [hread, ← sentMetadata_eq_iff]
  simp only [Except.ok.injEq, Option.some.injEq, TcpMessage.message.injEq,
    ClientMessage.login.injEq, true_and]

/-- Errors are received as sent. -/
theorem receive_loginError {result : AooError} (hresult : result.code ≠ kAooErrorNone)
    (hcode : .ofCode result.code = result) {token code : Int} {message : String} :
    receive T localIpv4 pending ((ClientMessage.error .login token result code message).osc T) =
      .ok (some (.message (.error .login token result code message))) := by
  have hread : readLogin ((ClientMessage.error .login token result code message).args T) =
      .ok (.error .login token result code message, []) := by
    rw [ClientMessage.args]
    refine (bind_ok (a := token) rfl).trans ?_
    refine (bind_ok (a := result.code) rfl).trans ?_
    rw [if_pos hresult]
    show Except.ok (ClientMessage.error .login token (.ofCode result.code) code message, []) = _
    rw [hcode]
  exact congrArg (Except.map Prod.fst) ((bind_ok hread).trans rfl)

/-- The response to a join, for the request that waits for it. -/
theorem receive_groupJoin_iff {token : Int} {r : GroupJoinReply}
    (hvalid : (ClientMessage.groupJoin token r).Valid) {q : Server.GroupJoinRequest}
    (hcmd : pending token = some (.groupJoin q)) :
    receive T localIpv4 pending ((ClientMessage.groupJoin token r).osc T) =
        .ok (some (.message (.groupJoin token r))) ↔
      (ClientMessage.groupJoin token r).Faithful localIpv4 pending := by
  have hread : receive T localIpv4 pending ((ClientMessage.groupJoin token r).osc T) =
      (readResponse (.groupJoin q) ((ClientMessage.groupJoin token r).args T)).map fun x =>
        some (.message x.1) :=
    receive_reply .groupJoin nofun hcmd
  rw [readResponse_groupJoin hvalid] at hread
  have hflags : (if r.userFlags = 0 then 0 else 1) = r.userFlags ↔ r.userFlags ≤ 1 := by
    split <;> omega
  refine (Eq.congr_left hread).trans ?_
  rw [ClientMessage.Faithful, ← sentMetadata_eq_iff, ← sentMetadata_eq_iff, ← sentMetadata_eq_iff,
    ← hflags]
  cases r
  simp only [Except.map, Except.ok.injEq, Option.some.injEq, TcpMessage.message.injEq,
    ClientMessage.groupJoin.injEq, GroupJoinReply.mk.injEq, true_and, and_true]

/-- The response to a custom request. -/
theorem receive_request_iff {token : Int} {flags : Nat} {data : AooData}
    (hflags : flags < 4294967296) (hdata : data.data ≠ []) {flags' : Nat} {data' : AooData}
    (hcmd : pending token = some (.custom flags' data')) :
    receive T localIpv4 pending ((ClientMessage.request token flags data).osc T) =
        .ok (some (.message (.request token flags data))) ↔ data.type ≠ kAooDataUnspecified := by
  refine (Eq.congr_left ((receive_reply .custom nofun hcmd).trans
    (congrArg _ (readResponse_request (T := T) hflags hdata token flags' data')))).trans ?_
  by_cases htype : data.type ≠ kAooDataUnspecified
  · simp [sentMetadata, htype, Except.map]
  · simp [sentMetadata, htype, Except.map]

/-- The message about a peer, with all its addresses. -/
theorem receive_peerJoin_iff {p : PeerJoin} (hvalid : (ClientMessage.peerJoin p).Valid)
    (hnames : ∀ a ∈ p.addresses, T.Names a) :
    receive T localIpv4 pending ((ClientMessage.peerJoin p).osc T) =
        .ok (some (.message (.peerJoin p))) ↔
      (ClientMessage.peerJoin p).Faithful localIpv4 pending := by
  have hread : receive T localIpv4 pending ((ClientMessage.peerJoin p).osc T) =
      .ok (some (.message (.peerJoin { p with
        metadata := sentMetadata p.metadata
        addresses := (p.addresses.map IpAddress.sent).filter (localIpv4.usable ·) }))) :=
    congrArg (Except.map Prod.fst) ((bind_ok (readPeerJoin_args hvalid hnames)).trans rfl)
  rw [ClientMessage.Faithful, hread, ← sentMetadata_eq_iff, ← sentAddresses_eq_iff]
  cases p
  simp only [Except.ok.injEq, Option.some.injEq, TcpMessage.message.injEq,
    ClientMessage.peerJoin.injEq, PeerJoin.mk.injEq, true_and]

/-- An announced change arrives if there is metadata with a type. -/
theorem changed_eq_iff {m : Int → Int → Option AooData → ClientMessage} {group user : Int}
    {md : Option AooData} (hmd : NonEmpty md) :
    ((do return some (.message (← readChanged m)) : OscReader (Option TcpMessage))
        ([.int32 group, .int32 user] ++ oscMetadata md)).map Prod.fst =
          .ok (some (.message (m group user md))) ↔
      md.isSome ∧ Typed md := by
  rw [map_message, readChanged_args hmd, ← sentMetadata_eq_iff]
  cases md with
  | none => simp [sentMetadata, Except.map]
  | some d =>
    by_cases htype : d.type ≠ kAooDataUnspecified
    · simp [sentMetadata, htype, Except.map]
    · simp [sentMetadata, htype, Except.map]

end

namespace TcpMessage

def Valid : TcpMessage → Prop
  | .message m => m.Valid
  | .notification data => data.data ≠ []
  | .ping => True

def Awaited (pending : Int → Option Command) : TcpMessage → Prop
  | .message m => m.Awaited pending
  | .notification _ | .ping => True

def addresses : TcpMessage → List IpAddress
  | .message m => m.addresses
  | .notification _ | .ping => []

/-- A notification never arrives. -/
def Faithful (localIpv4 : IpAddress) (pending : Int → Option Command) : TcpMessage → Prop
  | .message m => m.Faithful localIpv4 pending
  | .notification _ => False
  | .ping => True

end TcpMessage

/-- **What the client gets of a message**: it gets exactly what the server means if and only if the
contents are `Faithful`. -/
theorem receive_osc_iff (T : AddressText) (localIpv4 : IpAddress)
    (pending : Int → Option Command) (m : TcpMessage) (hvalid : m.Valid)
    (hawaited : m.Awaited pending) (hnames : ∀ a ∈ m.addresses, T.Names a) :
    receive T localIpv4 pending (m.osc T) = .ok (some m) ↔ m.Faithful localIpv4 pending := by
  cases m with
  | ping => exact iff_of_true rfl trivial
  | notification data =>
    -- The first argument is a blob and not the type.
    refine iff_of_false (fun h => ?_) id
    cases h
  | message m =>
    cases m with
    | login token version id md => exact receive_login_iff hvalid
    | groupJoin token r =>
      obtain ⟨cmd, hcmd, htype⟩ := hawaited _ _ rfl
      cases cmd with
      | groupJoin q => exact receive_groupJoin_iff hvalid hcmd
      | _ => cases htype
    | groupLeave token =>
      obtain ⟨cmd, hcmd, htype⟩ := hawaited _ _ rfl
      cases cmd with
      | groupLeave group => exact iff_of_true (receive_reply .groupLeave nofun hcmd) trivial
      | _ => cases htype
    | groupUpdate token md =>
      obtain ⟨cmd, hcmd, htype⟩ := hawaited _ _ rfl
      cases cmd with
      | groupUpdate group md' =>
        have hread : receive T localIpv4 pending ((ClientMessage.groupUpdate token md).osc T) =
            .ok (some (.message (.groupUpdate token (some md')))) :=
          receive_reply .groupUpdate nofun hcmd
        refine (Eq.congr_left hread).trans ?_
        simp only [Except.ok.injEq, Option.some.injEq, TcpMessage.message.injEq,
          ClientMessage.groupUpdate.injEq, true_and]
        constructor
        · exact fun h => ⟨group, md', hcmd, h.symm⟩
        · rintro ⟨group', md'', hcmd', h⟩
          rw [hcmd] at hcmd'
          cases hcmd'
          exact h.symm
      | _ => cases htype
    | userUpdate token md =>
      obtain ⟨cmd, hcmd, htype⟩ := hawaited _ _ rfl
      cases cmd with
      | userUpdate group md' =>
        have hread : receive T localIpv4 pending ((ClientMessage.userUpdate token md).osc T) =
            .ok (some (.message (.userUpdate token (some md')))) :=
          receive_reply .userUpdate nofun hcmd
        refine (Eq.congr_left hread).trans ?_
        simp only [Except.ok.injEq, Option.some.injEq, TcpMessage.message.injEq,
          ClientMessage.userUpdate.injEq, true_and]
        constructor
        · exact fun h => ⟨group, md', hcmd, h.symm⟩
        · rintro ⟨group', md'', hcmd', h⟩
          rw [hcmd] at hcmd'
          cases hcmd'
          exact h.symm
      | _ => cases htype
    | request token flags data =>
      obtain ⟨cmd, hcmd, htype⟩ := hawaited _ _ rfl
      cases cmd with
      | custom flags' data' => exact receive_request_iff hvalid.1 hvalid.2 hcmd
      | _ => cases htype
    | error type token result code message =>
      obtain ⟨-, -, hresult, hcode⟩ := hvalid
      refine iff_of_true ?_ trivial
      by_cases htype : type = .login
      · subst htype
        exact receive_loginError hresult hcode
      · obtain ⟨cmd, hcmd, rfl⟩ := hawaited _ _ (if_neg htype)
        exact (receive_reply _ htype hcmd).trans
          (congrArg _ (readResponse_error (T := T) hresult hcode cmd token code message))
    | peerJoin p => exact receive_peerJoin_iff hvalid hnames
    | peerLeave group user => exact iff_of_true rfl trivial
    | groupChanged group user md => exact changed_eq_iff hvalid
    | userChanged group user md => exact changed_eq_iff hvalid
    | peerChanged group user md => exact changed_eq_iff hvalid
    | groupEject group => exact iff_of_true rfl trivial
    | pong => exact iff_of_true rfl trivial


/-- The names of two addresses. -/
def sampleText : AddressText where
  ntop host :=
    if host = [192, 168, 0, 2] then "192.168.0.2"
    else if host = [203, 0, 113, 7] then "203.0.113.7" else ""
  pton ip :=
    if ip = "192.168.0.2" then some [192, 168, 0, 2]
    else if ip = "203.0.113.7" then some [203, 0, 113, 7] else none

/-- A peer with two addresses, a relay and metadata. -/
def samplePeer : PeerJoin where
  groupName := "band"
  groupId := 0
  userName := "drums"
  userId := 1
  version := "2.0-test4"
  flags := kAooPeerGroupCreator
  metadata := some ⟨1, [104, 105]⟩
  relay := ⟨"relay.example", 7078⟩
  addresses := [⟨[192, 168, 0, 2], 50000⟩, ⟨[203, 0, 113, 7], 50000⟩]

/-- The peer arrives at a client with another local address. -/
theorem receive_samplePeer :
    receive sampleText ⟨[192, 168, 0, 3], 50001⟩ (fun _ => none)
        ((TcpMessage.message (.peerJoin samplePeer)).osc sampleText) =
      .ok (some (.message (.peerJoin samplePeer))) := by
  refine (receive_osc_iff sampleText ⟨[192, 168, 0, 3], 50001⟩ (fun _ => none)
    (.message (.peerJoin samplePeer)) ?_ ?_ ?_).mpr ?_
  · refine ⟨by decide, ?_, .inr ⟨by decide, by decide⟩⟩
    intro d hd
    cases hd
    decide
  · intro type token h
    cases h
  · intro a ha _
    rcases List.mem_cons.mp ha with rfl | ha
    · decide
    · rw [List.mem_singleton.mp ha]
      decide
  · refine ⟨?_, by decide⟩
    intro d hd
    cases hd
    decide

/-- What the server says to the user that has created a group: `joinReply`, but with the flags
of the user. -/
def creatorReply : GroupJoinReply where
  groupId := 0
  groupFlags := 0
  groupMetadata := none
  userId := 0
  userFlags := kAooUserGroupCreator
  userMetadata := none
  privateMetadata := none
  relay := {}

/-- The creator of a group is told that it is a persistent user, and a notification ends the
connection. -/
theorem creator_and_notification :
    (receive sampleText .clear
          (fun _ => some (.groupJoin ⟨"band", none, -1, none, "drums", none, -1, none, none⟩))
          ((TcpMessage.message (.groupJoin 0 creatorReply)).osc sampleText) ≠
        .ok (some (.message (.groupJoin 0 creatorReply)))) ∧
      receive sampleText .clear (fun _ => none)
          ((TcpMessage.notification ⟨1, [104, 105]⟩).osc sampleText) ≠
        .ok (some (.notification ⟨1, [104, 105]⟩)) := by
  decide +kernel

end Aoo.Net
