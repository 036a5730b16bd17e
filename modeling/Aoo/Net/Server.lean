import Aoo.Binmsg
import Aoo.Lib.Keyed

/-!
# The server

`server.cpp` and `client_endpoint.cpp`: the clients that are connected, the groups with their
users, and the requests by which clients join and leave groups. The membership of a client in a group is
stored twice: the user has the id of its client, and the client has a list of its
groups and users (`groupUsers`).

Messages are kept as values and not as OSC data; what is sent to a client is appended to
`stream`, the part of the TCP connection that the client has not read yet. Events for the user of the
server, log messages and pings change nothing here and are left out. Ids are counted
without bound, and passwords are what the code stores of them. Here each message fits in the send
buffer; what happens otherwise is in `Aoo.Net.Sending` and `Aoo.Net.Exceptions`.

A request is checked, and then either carried out at once or taken over by the user's
request handler. In the latter case it is carried out by `handleRequest`, during the call of the
handler or later.
-/

namespace Aoo.Net

open Lib

/-! ## Users, groups and clients -/

/-- `ip_host` -/
structure IpHost where
  name : String := ""
  port : Int := 0
  deriving DecidableEq, Repr

def IpHost.valid (h : IpHost) : Bool := h.port > 0

/-- `ip_address` -/
structure IpAddress where
  host : List UInt8
  port : UInt16
  deriving DecidableEq, Repr

def kAooGroupPersistent : Nat := 0x01
def kAooUserPersistent : Nat := 0x01
def kAooUserGroupCreator : Nat := 0x02
def kAooPeerPersistent : Nat := 0x02
def kAooPeerGroupCreator : Nat := 0x04

/-- `check_pwd`: an empty password is no password. -/
def checkPwd (expected : String) (pwd : Option String) : Bool :=
  expected.isEmpty || pwd == some expected

/-- `user` -/
structure User where
  name : String
  pwd : String
  id : Int
  group : Int
  client : Int
  metadata : Option AooData
  relay : IpHost
  flags : Nat
  deriving DecidableEq, Repr

namespace User

def groupCreator (u : User) : Bool := hasBit u.flags kAooUserGroupCreator

def persistent (u : User) : Bool := hasBit u.flags kAooUserPersistent

def active (u : User) : Bool := u.client ≠ kAooIdInvalid

def unset (u : User) : User := { u with client := kAooIdInvalid }

/-- `user::flags`, which returns a `bool`. -/
def flagsResult (u : User) : Nat := if u.flags = 0 then 0 else 1

end User

/-- `group` -/
structure Group where
  name : String
  pwd : String
  id : Int
  metadata : Option AooData
  relay : IpHost
  flags : Nat
  userAutoCreate : Bool := true
  users : List User := []
  nextUserId : Int := 0
  deriving DecidableEq, Repr

namespace Group

def persistent (g : Group) : Bool := hasBit g.flags kAooGroupPersistent

/-- `group::find_user`, by id. -/
def findUser (g : Group) (id : Int) : Option User := Keyed.lookup User.id id g.users

/-- `group::find_user`, by name. -/
def findUserByName (g : Group) (name : String) : Option User :=
  Keyed.lookup User.name name g.users

/-- `group::find_user`, by client. -/
def findUserByClient (g : Group) (client : Int) : Option User :=
  Keyed.lookup User.client client g.users

/-- `group::add_user` -/
def addUser (g : Group) (u : User) : Option Group :=
  match g.findUserByName u.name with
  | some _ => none
  | none => some { g with users := g.users ++ [u] }

/-- `group::remove_user` -/
def removeUser (g : Group) (id : Int) : Group := { g with users := Keyed.remove User.id id g.users }

def modifyUser (g : Group) (id : Int) (f : User → User) : Group :=
  { g with users := Keyed.adjust User.id id f g.users }

/-- `group::get_next_user_id`: an id that has become free, or a new one. -/
def getNextUserId (g : Group) : Int × Group :=
  match ((List.range g.nextUserId.toNat).map Int.ofNat).find? fun i => (g.findUser i).isNone with
  | some i => (i, g)
  | none => (g.nextUserId, { g with nextUserId := g.nextUserId + 1 })

end Group

/-- `AooRequestType`, for the requests that a server handles. -/
inductive RequestType
  | login
  | groupJoin
  | groupLeave
  | groupUpdate
  | userUpdate
  | custom
  deriving DecidableEq, Repr

/-- What the server says to a client when it has joined a group. -/
structure GroupJoinReply where
  groupId : Int
  groupFlags : Nat
  groupMetadata : Option AooData
  userId : Int
  userFlags : Nat
  userMetadata : Option AooData
  privateMetadata : Option AooData
  relay : IpHost
  deriving DecidableEq, Repr

/-- What the server says to a client about a peer. -/
structure PeerJoin where
  groupName : String
  groupId : Int
  userName : String
  userId : Int
  version : String
  flags : Nat
  metadata : Option AooData
  relay : IpHost
  addresses : List IpAddress
  deriving DecidableEq, Repr

/-- The messages of the server to a client. -/
inductive ClientMessage
  | login (token : Int) (version : String) (id : Int) (metadata : Option AooData)
  | groupJoin (token : Int) (r : GroupJoinReply)
  | groupLeave (token : Int)
  | groupUpdate (token : Int) (metadata : Option AooData)
  | userUpdate (token : Int) (metadata : Option AooData)
  | request (token : Int) (flags : Nat) (data : AooData)
  | error (type : RequestType) (token : Int) (result : AooError) (code : Int) (message : String)
  | peerJoin (p : PeerJoin)
  | peerLeave (group user : Int)
  | groupChanged (group user : Int) (metadata : Option AooData)
  | userChanged (group user : Int) (metadata : Option AooData)
  | peerChanged (group user : Int) (metadata : Option AooData)
  | groupEject (group : Int)
  | pong
  deriving DecidableEq, Repr

/-- `client_endpoint` -/
structure ClientEndpoint where
  id : Int
  version : String := ""
  publicAddresses : List IpAddress := []
  groupUsers : List (Int × Int) := []
  stream : List ClientMessage := []
  deriving DecidableEq, Repr

/-- `client_endpoint::active` -/
def ClientEndpoint.active (c : ClientEndpoint) : Bool := !c.version.isEmpty

/-- `Server` -/
structure Server where
  clients : List ClientEndpoint := []
  nextClientId : Int := 0
  groups : List Group := []
  nextGroupId : Int := 0
  port : Int := 0
  globalRelay : IpHost := {}
  password : String := ""
  internalRelay : Bool := false
  groupAutoCreate : Bool := true
  deriving DecidableEq, Repr

namespace Server

/-- `Server::find_client` -/
def findClient (s : Server) (id : Int) : Option ClientEndpoint :=
  Keyed.lookup ClientEndpoint.id id s.clients

/-- `Server::find_group`, by id. -/
def findGroup (s : Server) (id : Int) : Option Group := Keyed.lookup Group.id id s.groups

/-- `Server::find_group`, by name. -/
def findGroupByName (s : Server) (name : String) : Option Group :=
  Keyed.lookup Group.name name s.groups

def modifyClient (s : Server) (id : Int) (f : ClientEndpoint → ClientEndpoint) : Server :=
  { s with clients := Keyed.adjust ClientEndpoint.id id f s.clients }

def modifyGroup (s : Server) (id : Int) (f : Group → Group) : Server :=
  { s with groups := Keyed.adjust Group.id id f s.groups }

/-- `client_endpoint::send_message` -/
def send (s : Server) (client : Int) (m : ClientMessage) : Server :=
  s.modifyClient client fun c => { c with stream := c.stream ++ [m] }

/-- `client_endpoint::send_error`. There is no pattern for failed updates. -/
def sendError (s : Server) (client token : Int) (type : RequestType) (result : AooError)
    (response : Option (Int × String)) : Server :=
  match type with
  | .login | .groupJoin | .groupLeave | .custom =>
    let (code, message) := response.getD (0, "")
    s.send client (.error type token result code message)
  | .groupUpdate | .userUpdate => s

/-- `Server::add_group` -/
def addGroup (s : Server) (g : Group) : Option Server :=
  match s.findGroupByName g.name with
  | some _ => none
  | none => some { s with groups := s.groups ++ [g] }

/-! ## Joining and leaving -/

/-- The message of `send_peer_join`. -/
def peerJoinMessage (g : Group) (u : User) (client : ClientEndpoint) : ClientMessage :=
  .peerJoin {
    groupName := g.name
    groupId := g.id
    userName := u.name
    userId := u.id
    version := client.version
    flags := (if u.groupCreator then kAooPeerGroupCreator else 0) |||
      (if u.persistent then kAooPeerPersistent else 0)
    metadata := u.metadata
    relay := u.relay
    addresses := client.publicAddresses }

/-- `Server::on_user_joined_group`: the user is sent to the members of the group, and they
to the user. -/
def onUserJoinedGroup (s : Server) (g : Group) (u : User) (client : ClientEndpoint) : Server :=
  g.users.foldl (fun s peer =>
    if peer.id ≠ u.id ∧ peer.active then
      match s.findClient peer.client with
      | some other =>
        (s.send client.id (peerJoinMessage g peer other)).send other.id (peerJoinMessage g u client)
      | none => s
    else s) s

/-- `Server::on_user_left_group` -/
def onUserLeftGroup (s : Server) (g : Group) (u : User) : Server :=
  g.users.foldl (fun s peer =>
    if peer.id ≠ u.id then
      match s.findClient peer.client with
      | some other => s.send other.id (.peerLeave g.id u.id)
      | none => s
    else s) s

/-- `client_endpoint::on_group_join` -/
def onGroupJoin (s : Server) (client group user : Int) : Server :=
  s.modifyClient client fun c =>
    if (group, user) ∈ c.groupUsers then c
    else { c with groupUsers := c.groupUsers ++ [(group, user)] }

/-- `client_endpoint::on_group_leave` -/
def onGroupLeave (s : Server) (client group user : Int) (eject : Bool) : Server :=
  let s := if eject then s.send client (.groupEject group) else s
  s.modifyClient client fun c => { c with groupUsers := c.groupUsers.erase (group, user) }

/-- The client of a user is told that it has been ejected from the group. -/
def ejectUser (s : Server) (group : Int) (u : User) : Server :=
  match s.findClient u.client with
  | some client => s.onGroupLeave client.id group u.id true
  | none => s

/-- `Server::remove_group`; `none` if there is no such group. -/
def removeGroup (s : Server) (id : Int) : Option Server :=
  match s.findGroup id with
  | none => none
  | some g =>
    let s := g.users.foldl (fun s u => s.ejectUser g.id u) s
    some { s with groups := Keyed.remove Group.id id s.groups }

/-- `Server::do_remove_user_from_group` -/
def doRemoveUserFromGroup (s : Server) (g : Group) (u : User) : Server :=
  if u.persistent then s.modifyGroup g.id fun g => g.modifyUser u.id User.unset
  else
    let s := s.modifyGroup g.id fun g => g.removeUser u.id
    if ¬ g.persistent ∧ (g.removeUser u.id).users.isEmpty then (s.removeGroup g.id).getD s else s

/-- `Server::accept_client` -/
def acceptClient (s : Server) : Server :=
  { s with
    clients := s.clients ++ [{ id := s.nextClientId }]
    nextClientId := s.nextClientId + 1 }

/-- `client_endpoint::on_close`, for one group and user. -/
def closeGroupUser (s : Server) (gu : Int × Int) : Server :=
  match s.findGroup gu.1 with
  | none => s
  | some g =>
    match g.findUser gu.2 with
    | none => s
    | some u => (s.onUserLeftGroup g u).doRemoveUserFromGroup g u

/-- `Server::remove_client` -/
def removeClient (s : Server) (id : Int) : Server :=
  match s.findClient id with
  | none => s
  | some client =>
    let s := client.groupUsers.foldl closeGroupUser s
    { s with clients := Keyed.remove ClientEndpoint.id id s.clients }

/-! ## Requests -/

/-- `AooRequestGroupJoin`. The ids are those of the group and the user if they exist. -/
structure GroupJoinRequest where
  groupName : String
  groupPwd : Option String
  groupId : Int := kAooIdInvalid
  groupMetadata : Option AooData
  userName : String
  userPwd : Option String
  userId : Int := kAooIdInvalid
  userMetadata : Option AooData
  relay : Option IpHost
  deriving DecidableEq, Repr

/-- `AooResponseGroupJoin`, as far as the user can fill it in. -/
structure GroupJoinResponse where
  groupMetadata : Option AooData := none
  userMetadata : Option AooData := none
  privateMetadata : Option AooData := none
  relay : Option IpHost := none
  deriving DecidableEq, Repr

/-- `aoo_getVersionString` -/
def aooGetVersionString : String := "2.0-test4"

/-- `Server::do_login` -/
def doLogin (s : Server) (client token : Int) (version : String) (metadata : Option AooData) :
    Server :=
  (s.modifyClient client fun c => { c with version }).send client
    (.login token aooGetVersionString client metadata)

/-- The relay of a group: its own, or the one of the server. -/
def relayAddr (s : Server) (g : Group) : IpHost :=
  if g.relay.valid then g.relay
  else if s.globalRelay.valid then s.globalRelay
  else if s.internalRelay then { port := s.port } else {}

/-- The end of `do_group_join`: the client is in the group as the user. -/
def finishGroupJoin (s : Server) (client : ClientEndpoint) (token : Int) (g : Group) (u : User)
    (response : GroupJoinResponse) : Server :=
  let s := s.onGroupJoin client.id g.id u.id
  let s := s.send client.id (.groupJoin token {
    groupId := g.id
    groupFlags := g.flags
    groupMetadata := g.metadata
    userId := u.id
    userFlags := u.flagsResult
    userMetadata := u.metadata
    privateMetadata := response.privateMetadata
    relay := s.relayAddr g })
  s.onUserJoinedGroup g u client

/-- The group of `do_group_join`, which is created if there is none with the id; and if it
was. -/
def findOrCreateGroup (s : Server) (r : GroupJoinRequest) (response : GroupJoinResponse) :
    Server × Option (Group × Bool) :=
  match s.findGroup r.groupId with
  | some g => (s, some (g, false))
  | none =>
    let g : Group := {
      name := r.groupName
      pwd := r.groupPwd.getD ""
      id := s.nextGroupId
      metadata := response.groupMetadata.orElse fun _ => r.groupMetadata
      relay := response.relay.getD {}
      flags := 0 }
    let s := { s with nextGroupId := s.nextGroupId + 1 }
    match s.addGroup g with
    | some s => (s, some (g, true))
    | none => (s, none)

/-- The user that `do_group_join` creates. -/
def newUser (client id group : Int) (created : Bool) (r : GroupJoinRequest)
    (response : GroupJoinResponse) : User where
  name := r.userName
  pwd := r.userPwd.getD ""
  id
  group
  client
  metadata := response.userMetadata.orElse fun _ => r.userMetadata
  relay := r.relay.getD {}
  flags := if created then kAooUserGroupCreator else 0

/-- `Server::do_group_join`. A user that exists keeps its client id. -/
def doGroupJoin (s : Server) (client : ClientEndpoint) (token : Int) (r : GroupJoinRequest)
    (response : GroupJoinResponse) : Server :=
  match s.findOrCreateGroup r response with
  | (s, none) => s.sendError client.id token .groupJoin .cannotCreateGroup none
  | (s, some (g, created)) =>
    match g.findUser r.userId with
    | some u => s.finishGroupJoin client token g u response
    | none =>
      let (id, g) := g.getNextUserId
      let s := s.modifyGroup g.id fun _ => g
      let u := newUser client.id id g.id created r response
      match g.addUser u with
      | none => s.sendError client.id token .groupJoin .cannotCreateUser none
      | some g => (s.modifyGroup g.id fun _ => g).finishGroupJoin client token g u response

/-- `Server::do_group_leave` -/
def doGroupLeave (s : Server) (client : ClientEndpoint) (token group : Int) : Server :=
  match s.findGroup group with
  | none => s.sendError client.id token .groupLeave .groupDoesNotExist none
  | some g =>
    match g.findUserByClient client.id with
    | none => s.sendError client.id token .groupLeave .notGroupMember none
    | some u =>
      let s := s.onUserLeftGroup g u
      let s := s.onGroupLeave client.id g.id u.id false
      (s.doRemoveUserFromGroup g u).send client.id (.groupLeave token)

/-- Sends a message to the clients of some users. -/
def sendAll (s : Server) (users : List User) (m : User → ClientMessage) : Server :=
  users.foldl (fun s u =>
    match s.findClient u.client with
    | some c => s.send c.id (m u)
    | none => s) s

/-- `Server::do_group_update` -/
def doGroupUpdate (s : Server) (client : ClientEndpoint) (token group : Int) (md : AooData) :
    Server :=
  match s.findGroup group with
  | none => s
  | some g =>
    match g.findUserByClient client.id with
    | none => s
    | some u =>
      let s := s.modifyGroup g.id fun g => { g with metadata := some md }
      let s := s.sendAll (g.users.filter fun p => p.client ≠ client.id) fun _ =>
        .groupChanged g.id u.id (some md)
      s.send client.id (.groupUpdate token (some md))

/-- `Server::do_user_update` -/
def doUserUpdate (s : Server) (client : ClientEndpoint) (token group user : Int) (md : AooData) :
    Server :=
  match s.findGroup group with
  | none => s
  | some g =>
    match g.findUser user with
    | none => s
    | some u =>
      let s := s.modifyGroup g.id fun g => g.modifyUser u.id fun u => { u with metadata := some md }
      let s := s.sendAll (g.users.filter fun member => member.id ≠ u.id) fun _ =>
        .peerChanged u.group u.id (some md)
      s.send client.id (.userUpdate token (some md))

/-- `AooRequest` -/
inductive Request
  | login (version : String) (pwd : Option String) (metadata : Option AooData)
  | groupJoin (r : GroupJoinRequest)
  | groupLeave (group : Int)
  | groupUpdate (group : Int) (metadata : AooData)
  | userUpdate (group user : Int) (metadata : AooData)
  | custom (flags : Nat) (data : AooData)
  deriving DecidableEq, Repr

def Request.type : Request → RequestType
  | .login .. => .login
  | .groupJoin .. => .groupJoin
  | .groupLeave .. => .groupLeave
  | .groupUpdate .. => .groupUpdate
  | .userUpdate .. => .userUpdate
  | .custom .. => .custom

/-- `AooResponse` -/
inductive Response
  | login (metadata : Option AooData)
  | groupJoin (r : GroupJoinResponse)
  | groupLeave
  | groupUpdate (metadata : AooData)
  | userUpdate (metadata : AooData)
  | custom (flags : Nat) (data : AooData)
  deriving DecidableEq, Repr

/-- A request is carried out; the response must be of the same type. -/
def perform (s : Server) (client : ClientEndpoint) (token : Int) : Request → Response → Server
  | .login version _ _, .login metadata => s.doLogin client.id token version metadata
  | .groupJoin r, .groupJoin response => s.doGroupJoin client token r response
  | .groupLeave group, .groupLeave => s.doGroupLeave client token group
  | .groupUpdate group _, .groupUpdate md => s.doGroupUpdate client token group md
  | .userUpdate group user _, .userUpdate md => s.doUserUpdate client token group user md
  | .custom _ _, .custom flags data => s.send client.id (.request token flags data)
  | _, _ => s

/-- `Server::handleRequest`: the user accepts a request, or denies it. -/
def handleRequest (s : Server) (client token : Int) (r : Request)
    (result : Except (AooError × Option (Int × String)) Response) : Server :=
  match s.findClient client with
  | none => s
  | some c =>
    match result with
    | .ok response => s.perform c token r response
    | .error (e, response) => s.sendError client token r.type e response

/-- The response to a request that the request handler does not take over. Custom requests
have none. -/
def defaultResponse : Request → Option Response
  | .login .. => some (.login none)
  | .groupJoin _ => some (.groupJoin {})
  | .groupLeave _ => some .groupLeave
  | .groupUpdate _ md => some (.groupUpdate md)
  | .userUpdate _ _ md => some (.userUpdate md)
  | .custom .. => none

/-! ## Messages of clients -/

/-- The messages of a client. -/
inductive ServerMessage
  | login (token : Int) (version pwd : String) (metadata : Option AooData)
    (addresses : List IpAddress)
  | groupJoin (token : Int) (r : GroupJoinRequest)
  | groupLeave (token group : Int)
  | groupUpdate (token group : Int) (metadata : AooData)
  | userUpdate (token group : Int) (metadata : AooData)
  | request (token : Int) (flags : Nat) (data : AooData)
  | ping
  | pong
  deriving DecidableEq, Repr

/-- `%d` of `sscanf` -/
def scanInt (cs : List Char) : Option (Int × List Char) :=
  let cs := cs.dropWhile (·.isWhitespace)
  let (negative, cs) := match cs with
    | '-' :: cs => (true, cs)
    | '+' :: cs => (false, cs)
    | cs => (false, cs)
  let digits := cs.takeWhile (·.isDigit)
  if digits.isEmpty then none
  else
    let n : Int := digits.foldl (fun n c => n * 10 + (c.toNat - '0'.toNat)) 0
    some (if negative then -n else n, cs.dropWhile (·.isDigit))

/-- `check_version`, for major version 2. -/
def checkVersion (version : String) : Except AooError Unit :=
  match scanInt version.toList with
  | some (major, '.' :: cs) =>
    match scanInt cs with
    | some _ => if major = 2 then .ok () else .error .versionNotSupported
    | none => .error .badFormat
  | _ => .error .badFormat

/-- The checks of `handle_group_join`: the ids that go into the request. -/
def checkGroupJoin (s : Server) (r : GroupJoinRequest) : Except AooError GroupJoinRequest :=
  match s.findGroupByName r.groupName with
  | some g =>
    if !checkPwd g.pwd r.groupPwd then .error .wrongPassword
    else
      match g.findUserByName r.userName with
      | some u =>
        if u.active then .error .userAlreadyExists
        else if !checkPwd u.pwd r.userPwd then .error .wrongPassword
        else .ok { r with groupId := g.id, userId := u.id }
      | none =>
        if !g.userAutoCreate then .error .cannotCreateUser
        else .ok { r with groupId := g.id, userId := kAooIdInvalid }
  | none =>
    if !s.groupAutoCreate then .error .cannotCreateGroup
    else .ok { r with groupId := kAooIdInvalid, userId := kAooIdInvalid }

/-- The membership that updates require. -/
def checkMember (s : Server) (client group : Int) : Except AooError User :=
  match s.findGroup group with
  | none => .error .groupDoesNotExist
  | some g =>
    match g.findUserByClient client with
    | none => .error .notPermitted
    | some u => .ok u

/-- The request in a message of a client, or why it is refused. -/
def checkRequest (s : Server) (client : Int) : ServerMessage → Except AooError Request
  | .login _ version pwd metadata _ =>
    match checkVersion version with
    | .error e => .error e
    | .ok () =>
      if !s.password.isEmpty ∧ pwd ≠ s.password then .error .wrongPassword
      else .ok (.login version (if pwd.isEmpty then none else some pwd) metadata)
  | .groupJoin _ r => (s.checkGroupJoin r).map .groupJoin
  | .groupLeave _ group => .ok (.groupLeave group)
  | .groupUpdate _ group md => (s.checkMember client group).map fun _ => .groupUpdate group md
  | .userUpdate _ group md => (s.checkMember client group).map fun u => .userUpdate group u.id md
  | .request _ flags data => .ok (.custom flags data)
  | .ping | .pong => .error .notImplemented

/-- The kind of request in a message, and its token. -/
def ServerMessage.request? : ServerMessage → Option (RequestType × Int)
  | .login token .. => some (.login, token)
  | .groupJoin token _ => some (.groupJoin, token)
  | .groupLeave token _ => some (.groupLeave, token)
  | .groupUpdate token .. => some (.groupUpdate, token)
  | .userUpdate token .. => some (.userUpdate, token)
  | .request token .. => some (.custom, token)
  | .ping | .pong => none

/-- The addresses in a login message are kept in any case. -/
def noteAddresses (s : Server) (client : Int) : ServerMessage → Server
  | .login _ _ _ _ addresses =>
    s.modifyClient client fun c => { c with publicAddresses := c.publicAddresses ++ addresses }
  | _ => s

/-- A request that has passed the checks; `taken` says that the request handler takes it
over. -/
def dispatch (s : Server) (client : ClientEndpoint) (token : Int) (r : Request) (taken : Bool) :
    Server :=
  if taken then s
  else
    match defaultResponse r with
    | some response => s.perform client token r response
    | none => s.sendError client.id token r.type .unhandledRequest none

/-- `Server::handle_message`. A client that is not logged in is thrown out, and so is one
whose message is malformed (see `Action`). -/
def handleMessage (s : Server) (client : Int) (m : ServerMessage) (taken : Bool) : Server :=
  match s.findClient client with
  | none => s
  | some c =>
    match m.request? with
    | none =>
      if !c.active then s.removeClient client
      else if m = .ping then s.send client .pong else s
    | some (type, token) =>
      if type ≠ .login ∧ !c.active then s.removeClient client
      else
        let s := s.noteAddresses client m
        match s.checkRequest client m with
        | .error e => s.sendError client token type e none
        | .ok r => s.dispatch c token r taken

/-! ## The interface of the server -/

/-- `Server::addGroup`. The id is used up in any case. -/
def createGroup (s : Server) (name pwd : String) (metadata : Option AooData)
    (relay : Option IpHost) : Server × Except AooError Int :=
  let g : Group := {
    name, pwd
    id := s.nextGroupId
    metadata
    relay := relay.getD {}
    flags := kAooGroupPersistent }
  let s := { s with nextGroupId := s.nextGroupId + 1 }
  match s.addGroup g with
  | some s => (s, .ok g.id)
  | none => (s, .error .alreadyExists)

/-- `Server::removeGroup` -/
def deleteGroup (s : Server) (id : Int) : Server × Except AooError Unit :=
  match s.removeGroup id with
  | some s => (s, .ok ())
  | none => (s, .error .notFound)

/-- `Server::addUserToGroup` -/
def addUserToGroup (s : Server) (group : Int) (name pwd : String) (metadata : Option AooData) :
    Server × Except AooError Int :=
  match s.findGroup group with
  | none => (s, .error .notFound)
  | some g =>
    let (id, g) := g.getNextUserId
    let s := s.modifyGroup g.id fun _ => g
    let u : User := {
      name, pwd, id
      group := g.id
      client := kAooIdInvalid
      metadata
      relay := {}
      flags := kAooUserPersistent }
    match g.addUser u with
    | some g => (s.modifyGroup g.id fun _ => g, .ok id)
    | none => (s, .error .alreadyExists)

/-- `Server::removeUserFromGroup` -/
def removeUserFromGroup (s : Server) (group user : Int) : Server × Except AooError Unit :=
  match s.findGroup group with
  | none => (s, .error .notFound)
  | some g =>
    match g.findUser user with
    | none => (s, .error .notFound)
    | some u =>
      let s := if u.active then (s.ejectUser g.id u).onUserLeftGroup g u else s
      (s.doRemoveUserFromGroup g u, .ok ())

/-- `Server::update_group` -/
def updateGroup (s : Server) (group : Int) (md : AooData) : Server :=
  match s.findGroup group with
  | none => s
  | some g =>
    (s.modifyGroup g.id fun g => { g with metadata := some md }).sendAll g.users fun _ =>
      .groupChanged g.id kAooIdInvalid (some md)

/-- `Server::update_user`. The peers are told their own metadata. -/
def updateUser (s : Server) (group user : Int) (md : AooData) : Server :=
  match s.findGroup group with
  | none => s
  | some g =>
    match g.findUser user with
    | none => s
    | some u =>
      (s.modifyGroup g.id fun g => g.modifyUser u.id fun u => { u with metadata := some md }).sendAll
        g.users fun member =>
          if member.id = u.id then .userChanged member.group member.id (some md)
          else .peerChanged member.group member.id member.metadata

/-- What happens to a server: connections, messages of clients, and calls of its user. -/
inductive Action
  | acceptClient
  /-- The connection is lost, the client does not answer, or a message is malformed. -/
  | removeClient (client : Int)
  | handleMessage (client : Int) (m : ServerMessage) (taken : Bool)
  | handleRequest (client token : Int) (r : Request)
    (result : Except (AooError × Option (Int × String)) Response)
  | addGroup (name pwd : String) (metadata : Option AooData) (relay : Option IpHost)
  | removeGroup (group : Int)
  | addUserToGroup (group : Int) (name pwd : String) (metadata : Option AooData)
  | removeUserFromGroup (group user : Int)
  | updateGroup (group : Int) (metadata : AooData)
  | updateUser (group user : Int) (metadata : AooData)

def step (s : Server) : Action → Server
  | .acceptClient => s.acceptClient
  | .removeClient client => s.removeClient client
  | .handleMessage client m taken => s.handleMessage client m taken
  | .handleRequest client token r result => s.handleRequest client token r result
  | .addGroup name pwd metadata relay => (s.createGroup name pwd metadata relay).1
  | .removeGroup group => (s.deleteGroup group).1
  | .addUserToGroup group name pwd metadata => (s.addUserToGroup group name pwd metadata).1
  | .removeUserFromGroup group user => (s.removeUserFromGroup group user).1
  | .updateGroup group metadata => s.updateGroup group metadata
  | .updateUser group user metadata => s.updateUser group user metadata

end Server

end Aoo.Net
