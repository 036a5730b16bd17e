import Aoo.Net.Effect

/-!
# The client of a server

The part of `client.cpp` that talks to the server: the commands that become requests, and the
handlers of the server's messages. Connecting, the callbacks of the commands, events for the
user and relays are left out.

A client does not ask for the state of its groups. It has a list of memberships and a list of peers,
which it keeps up to date with the messages of the server. `View` says what these
lists should be, given the users of the groups on the server.
-/

namespace Aoo.Net

open Lib

/-- `client_state` -/
inductive ClientState
  | disconnected
  | handshake
  | connecting
  | connected
  deriving DecidableEq, Repr

/-- `group_membership` -/
structure GroupMembership where
  groupName : String
  userName : String
  groupId : Int
  userId : Int
  deriving DecidableEq, Repr

/-- `peer_args`, of which a peer is made. -/
structure PeerArgs where
  groupName : String
  userName : String
  groupId : Int
  userId : Int
  localId : Int
  flags : Nat
  version : String
  metadata : Option AooData
  deriving DecidableEq, Repr

/-- Group and user of a peer. -/
def PeerArgs.key (p : PeerArgs) : Int × Int := (p.groupId, p.userId)

/-- The commands that send a request to the server. -/
inductive Command
  | groupJoin (r : Server.GroupJoinRequest)
  | groupLeave (group : Int)
  | groupUpdate (group : Int) (metadata : AooData)
  | userUpdate (group : Int) (metadata : AooData)
  | custom (flags : Nat) (data : AooData)
  deriving DecidableEq, Repr

/-- The request of a command. -/
def Command.message (token : Int) : Command → Server.ServerMessage
  | .groupJoin r => .groupJoin token r
  | .groupLeave group => .groupLeave token group
  | .groupUpdate group md => .groupUpdate token group md
  | .userUpdate group md => .userUpdate token group md
  | .custom flags data => .request token flags data

/-- `Client` -/
structure Client where
  state : ClientState := .disconnected
  groups : List GroupMembership := []
  peers : List PeerArgs := []
  pendingRequests : List (Int × Command) := []
  nextToken : Int := 0
  deriving DecidableEq, Repr

namespace Client

/-- `Client::find_group_membership`, by id. -/
def findGroupMembership (c : Client) (id : Int) : Option GroupMembership :=
  Keyed.lookup GroupMembership.groupId id c.groups

/-- `Client::find_group_membership`, by name. -/
def findGroupMembershipByName (c : Client) (name : String) : Option GroupMembership :=
  Keyed.lookup GroupMembership.groupName name c.groups

/-- `Client::close` -/
def close (c : Client) : Client :=
  { c with state := .disconnected, groups := [], peers := [], pendingRequests := [] }

/-! ## Commands -/

/-- A command becomes a request with a new token. -/
def sendRequest (c : Client) (cmd : Command) : Client :=
  { c with
    pendingRequests := c.pendingRequests ++ [(c.nextToken, cmd)]
    nextToken := c.nextToken + 1 }

/-- The command passes the checks of `Client::perform`. -/
def permits (c : Client) : Command → Bool
  | .groupJoin r => c.state = .connected && (c.findGroupMembershipByName r.groupName).isNone
  | .groupLeave group | .groupUpdate group _ | .userUpdate group _ =>
    (c.findGroupMembership group).isSome
  | .custom _ _ => c.state = .connected

/-! ## Messages of the server -/

/-- The end of `Client::handle_response` for a join. -/
def joinGroup (c : Client) (r : Server.GroupJoinRequest) (reply : GroupJoinReply) : Client :=
  match c.findGroupMembershipByName r.groupName with
  | none =>
    { c with groups := c.groups ++ [⟨r.groupName, r.userName, reply.groupId, reply.userId⟩] }
  | some _ => c

/-- The peers and the membership of a group are removed. -/
def leaveGroup (c : Client) (group : Int) : Client :=
  { c with
    peers := c.peers.filter fun p => p.groupId ≠ group
    groups := Keyed.remove GroupMembership.groupId group c.groups }

/-- `Client::handle_response`. The response of a join or a custom request has arguments
that must be there. -/
def handleResponse (c : Client) : Command → ClientMessage → Client
  | _, .error .. => c
  | .groupJoin r, .groupJoin _ reply => c.joinGroup r reply
  | .groupJoin _, _ => c.close
  | .groupLeave group, _ => c.leaveGroup group
  | .custom .., .request .. => c
  | .custom .., _ => c.close
  | .groupUpdate .., _ => c
  | .userUpdate .., _ => c

/-- The response to a pending request. -/
def respond (c : Client) (token : Int) (m : ClientMessage) : Client :=
  match Keyed.lookup Prod.fst token c.pendingRequests with
  | none => c
  | some (_, cmd) =>
    let c := c.handleResponse cmd m
    { c with pendingRequests := Keyed.remove Prod.fst token c.pendingRequests }

/-- `Client::handle_peer_join` -/
def handlePeerJoin (c : Client) (p : PeerJoin) : Client :=
  if c.peers.any fun q => q.key = (p.groupId, p.userId) then c
  else
    match c.findGroupMembershipByName p.groupName with
    | none => c
    | some w =>
      { c with
        peers := {
          groupName := p.groupName
          userName := p.userName
          groupId := p.groupId
          userId := p.userId
          localId := w.userId
          flags := p.flags
          version := p.version
          metadata := p.metadata } :: c.peers }

/-- `Client::handle_peer_leave` -/
def handlePeerLeave (c : Client) (group user : Int) : Client :=
  match Keyed.lookup PeerArgs.key (group, user) c.peers with
  | none => c
  | some _ =>
    match c.findGroupMembership group with
    | none => c
    | some _ => { c with peers := Keyed.remove PeerArgs.key (group, user) c.peers }

/-- `Client::handle_login`, for a positive reply. -/
def handleLogin (c : Client) (version : String) : Client :=
  match Server.checkVersion version with
  | .ok () => { c with state := .connected }
  | .error _ => c.close

/-- `Client::handle_server_message`. Nothing arrives on a connection that is closed. -/
def handleServerMessage (c : Client) (m : ClientMessage) : Client :=
  if c.state = .disconnected then c
  else
    match m with
    | .login _ version _ _ => c.handleLogin version
    | .error .login .. => c.close
    | .error _ token .. | .groupJoin token _ | .groupLeave token | .groupUpdate token _
    | .userUpdate token _ | .request token .. => c.respond token m
    | .peerJoin p => c.handlePeerJoin p
    | .peerLeave group user => c.handlePeerLeave group user
    | .groupEject group => c.leaveGroup group
    | .groupChanged .. | .userChanged .. | .peerChanged .. | .pong => c

/-- The client after it has read some messages. -/
def read (c : Client) (ms : List ClientMessage) : Client := ms.foldl handleServerMessage c

/-- Messages are read one after the other. -/
theorem read_append (c : Client) (ms ms' : List ClientMessage) :
    c.read (ms ++ ms') = (c.read ms).read ms' :=
  List.foldl_append

/-- A client that is not connected reads nothing. -/
theorem handleServerMessage_disconnected {c : Client} (h : c.state = .disconnected)
    (m : ClientMessage) : c.handleServerMessage m = c :=
  if_pos h

/-- Neither does it read several messages. -/
theorem read_disconnected {c : Client} (h : c.state = .disconnected) (ms : List ClientMessage) :
    c.read ms = c := by
  induction ms with
  | nil => rfl
  | cons m ms ih =>
    rw [read, List.foldl_cons, handleServerMessage_disconnected h]
    exact ih

end Client

end Aoo.Net
