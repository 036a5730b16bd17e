import Mathlib.Algebra.Order.Ring.Rat
import Aoo.Lib.Run
import Aoo.Net.Format

/-!
# The threads of a client

A client works in three threads. The command thread (`Client::run`) takes commands from a queue and
reads from the TCP connection to the server. The receive thread gets the UDP messages of the
server, among them the replies to queries (`udp_client::handle_query`). The send thread
(`udp_client::update`) sends the queries and watches their deadline. These two also put commands in
the queue: `login_cmd` and `timeout_cmd`.

A step of `ClientSession` is a command or a message for the command thread, or for the other
two threads what they do between two accesses to shared data. The session counts the attempts to
connect, and the commands of the user that were performed. A response handler is the number of its
command. The numbers of attempts that stand in commands and queries are not in the program.

Events for the user are left out, and pings but for their failure.
-/

namespace Aoo.Net

open Lib

/-- `AOO_CLIENT_QUERY_TIMEOUT` -/
def queryTimeoutDefault : ℚ := 5

/-- `udp_client::max_query_timeout` -/
def maxQueryTimeout : ℚ := 30

/-- `Client::query_interval` -/
def queryInterval : ℚ := 1 / 4

/-- `Client::ping_interval` -/
def pingInterval : ℚ := 5

/-- The commands of the user. Each has a response handler. -/
inductive UserCommand
  | connect (timeout : ℚ)
  | disconnect
  | request (cmd : Command)
  deriving DecidableEq, Repr

/-- What stands in the command queue. A login and a timeout know the attempt they belong to. -/
inductive QueuedCommand
  | user (cmd : UserCommand)
  | login (publicIp : IpAddress) (attempt : Nat)
  | timeout (attempt : Nat)
  deriving DecidableEq, Repr

/-- `connection_`: the `connect_cmd` that is in progress, or that was successful. -/
structure Connection where
  handler : Nat
  attempt : Nat
  deriving DecidableEq, Repr

/-- A query that was sent to the server. -/
structure Query where
  attempt : Nat
  addr : IpAddress
  deriving DecidableEq, Repr

/-- `udp_client`. The attempt that the deadline belongs to is known. -/
structure UdpClient where
  startHandshake : Bool := false
  gotAddress : Bool := false
  remoteAddr : IpAddress := .clear
  nextPingTime : ℚ := 0
  queryDeadline : ℚ := 0
  queryTimeout : ℚ := maxQueryTimeout
  deadlineAttempt : Nat := 0
  deriving DecidableEq, Repr

/-- Where the receive thread is in `handle_query`, with the query that was replied to and the public
address in the reply. -/
inductive ReceiveThread
  | idle
  /-- The reply came from the server. -/
  | fromServer (q : Query) (publicAddr : IpAddress)
  /-- The client was in the handshake. -/
  | inHandshake (q : Query) (publicAddr : IpAddress)
  /-- The address was not received before. -/
  | gotAddress (q : Query) (publicAddr : IpAddress)
  deriving DecidableEq, Repr

/-- Where the send thread is in `update`. -/
inductive SendThread
  | idle
  /-- The client was in the handshake. -/
  | inHandshake (now : ℚ)
  /-- The timer is to be set. -/
  | starting (now : ℚ)
  /-- The handshake has timed out. -/
  | timedOut (attempt : Nat)
  /-- The deadline has not passed. -/
  | querying (now : ℚ)
  deriving DecidableEq, Repr

/-- A client with its threads. -/
structure ClientSession where
  client : Client := {}
  connection : Option Connection := none
  tcpOpen : Bool := false
  /-- The response handlers of `pending_requests_`. -/
  handlers : List (Int × Nat) := []
  commands : List QueuedCommand := []
  udp : UdpClient := {}
  receiveThread : ReceiveThread := .idle
  sendThread : SendThread := .idle
  /-- An assertion has failed. -/
  crashed : Bool := false
  attempts : Nat := 0
  queries : List Query := []
  performed : Nat := 0
  calls : List Nat := []
  deriving DecidableEq, Repr

/-- A join is noted beside the connection. -/
theorem Client.joinGroup_unchanged (c : Client) (r : Server.GroupJoinRequest)
    (reply : GroupJoinReply) :
    (c.joinGroup r reply).state = c.state ∧
      (c.joinGroup r reply).pendingRequests = c.pendingRequests ∧
      (c.joinGroup r reply).nextToken = c.nextToken := by
  unfold Client.joinGroup
  split
  next => exact ⟨rfl, rfl, rfl⟩
  next => exact ⟨rfl, rfl, rfl⟩

namespace ClientSession

/-! ## The command thread -/

/-- `callback_cmd::reply` and `callback_cmd::reply_error`: the response handler is called. -/
def reply (s : ClientSession) (handler : Nat) : ClientSession :=
  { s with calls := s.calls ++ [handler] }

/-- `Client::close` and `Client::close_with_error` -/
def close (s : ClientSession) : ClientSession :=
  { s with client := s.client.close, connection := none, tcpOpen := false, handlers := [] }

def setState (s : ClientSession) (state : ClientState) : ClientSession :=
  { s with client := { s.client with state } }

/-- `Client::send_server_message` -/
def sendServerMessage (s : ClientSession) (sent : Bool) : ClientSession :=
  if s.tcpOpen = true ∧ sent = false then s.close else s

/-- What the system does while a command is performed: the first address of the server if its name
can be resolved, whether `do_connect` is successful, and whether the message can be sent. -/
structure Outcome where
  resolved : Option IpAddress := none
  connected : Bool := false
  sent : Bool := false
  deriving DecidableEq, Repr

/-- `udp_client::start_handshake` -/
def startHandshake (u : UdpClient) (remote : IpAddress) (timeout : ℚ) : UdpClient :=
  { u with
    remoteAddr := remote
    gotAddress := false
    queryTimeout := if timeout < 0 then maxQueryTimeout else timeout
    startHandshake := true }

/-- A new attempt, at the end of `perform(connect_cmd)`. -/
def beginAttempt (s : ClientSession) (handler : Nat) (timeout : ℚ) (remote : IpAddress) :
    ClientSession :=
  { s with
    connection := some ⟨handler, s.attempts + 1⟩
    attempts := s.attempts + 1
    udp := startHandshake s.udp remote (if timeout ≠ 0 then timeout else queryTimeoutDefault)
    client := { s.client with state := .handshake } }

/-- `Client::perform(connect_cmd)` -/
def performConnect (s : ClientSession) (handler : Nat) (timeout : ℚ) (o : Outcome) :
    ClientSession :=
  if s.client.state ≠ .disconnected then s.reply handler
  else
    match o.resolved with
    | none => s.reply handler
    | some remote => s.beginAttempt handler timeout remote

/-- The TCP connection is there, and the request gets a token. -/
def openTcp (s : ClientSession) : ClientSession :=
  { s with
    tcpOpen := true
    client := { s.client with nextToken := s.client.nextToken + 1 } }

/-- `Client::perform(login_cmd)` -/
def performLogin (s : ClientSession) (o : Outcome) : ClientSession :=
  match s.connection with
  | none => { s with crashed := true }
  | some c =>
    if o.connected = true then
      ((s.setState .connecting).openTcp).sendServerMessage o.sent
    else ((s.setState .connecting).reply c.handler).close

/-- `Client::perform(timeout_cmd)` -/
def performTimeout (s : ClientSession) : ClientSession :=
  match s.connection with
  | none => s
  | some c => if s.client.state = .handshake then (s.reply c.handler).close else s

/-- `Client::perform(disconnect_cmd)` -/
def performDisconnect (s : ClientSession) (handler : Nat) : ClientSession :=
  if s.client.state ≠ .connected then s.reply handler else s.close.reply handler

/-- The request is stored with its response handler. -/
def pend (s : ClientSession) (handler : Nat) (cmd : Command) : ClientSession :=
  { s with
    client := s.client.sendRequest cmd
    handlers := s.handlers ++ [(s.client.nextToken, handler)] }

/-- `Client::perform` for the commands that become requests. -/
def performRequest (s : ClientSession) (handler : Nat) (cmd : Command) (o : Outcome) :
    ClientSession :=
  if s.client.permits cmd = true then (s.pend handler cmd).sendServerMessage o.sent
  else s.reply handler

/-- A command of the user gets the next number. -/
def performUser (s : ClientSession) (cmd : UserCommand) (o : Outcome) : ClientSession :=
  let handler := s.performed
  let s := { s with performed := s.performed + 1 }
  match cmd with
  | .connect timeout => s.performConnect handler timeout o
  | .disconnect => s.performDisconnect handler
  | .request cmd => s.performRequest handler cmd o

/-- The next command is taken from the queue. -/
def perform (s : ClientSession) (o : Outcome) : ClientSession :=
  match s.commands with
  | [] => s
  | cmd :: cmds =>
    let s := { s with commands := cmds }
    match cmd with
    | .user cmd => s.performUser cmd o
    | .login _ _ => s.performLogin o
    | .timeout _ => s.performTimeout

/-! ## Messages of the server -/

/-- `Client::handle_login` -/
def handleLogin (s : ClientSession) (version : String) : ClientSession :=
  match s.connection with
  | none => s
  | some c =>
    match Server.checkVersion version with
    | .ok () => (s.setState .connected).reply c.handler
    | .error _ => (s.reply c.handler).close

/-- `Client::handle_login`, for an error. -/
def handleLoginError (s : ClientSession) : ClientSession :=
  match s.connection with
  | none => s
  | some c => (s.reply c.handler).close

/-- `Client::handle_response`: in the end the response handler is called. -/
def respond (s : ClientSession) (token : Int) (m : ClientMessage) : ClientSession :=
  match Keyed.lookup Prod.fst token s.handlers with
  | none => s
  | some (_, handler) =>
    { s with
      client := s.client.respond token m
      handlers := Keyed.remove Prod.fst token s.handlers
      calls := s.calls ++ [handler] }

/-- The command of a request that is pending. -/
def pending (s : ClientSession) (token : Int) : Option Command :=
  (Keyed.lookup Prod.fst token s.client.pendingRequests).map Prod.snd

/-- The handlers of `handle_server_message`. -/
def handleMessage (s : ClientSession) (m : ClientMessage) : ClientSession :=
  match m with
  | .login _ version _ _ => s.handleLogin version
  | .error .login _ _ _ _ => s.handleLoginError
  | m =>
    match m.reply? with
    | some (_, token) => s.respond token m
    | none => { s with client := s.client.handleServerMessage m }

/-- `Client::handle_server_message`. The client closes the connection if arguments are missing
or have the wrong type. -/
def handleServerMessage (T : AddressText) (localIpv4 : IpAddress) (s : ClientSession)
    (m : OscMessage) : ClientSession :=
  match receive T localIpv4 s.pending m with
  | .ok (some (.message m)) => s.handleMessage m
  | .ok _ => s
  | .error _ => s.close

/-- What `Client::receive_data` gets from the socket: a message, a packet that is
no message, or the end of the connection. -/
inductive TcpEvent
  | message (m : OscMessage)
  | malformed
  | lost
  deriving DecidableEq, Repr

/-- `Client::receive_data`. Messages that follow one that closes the connection have no effect. -/
def receiveData (T : AddressText) (localIpv4 : IpAddress) (s : ClientSession) (e : TcpEvent) :
    ClientSession :=
  if s.tcpOpen = true then
    match e with
    | .message m => s.handleServerMessage T localIpv4 m
    | .malformed | .lost => s.close
  else s

/-- The ping timer in `Client::run`: a ping is sent or cannot be sent, or the server does not
respond for too long. -/
def pingServer (s : ClientSession) (responding sent : Bool) : ClientSession :=
  if s.client.state = .connected then
    if responding = true then s.sendServerMessage sent else s.close
  else s

/-! ## The receive thread -/

/-- A reply to a query arrives: `is_server_address`. -/
def receiveReply (s : ClientSession) (i : Nat) (publicAddr : IpAddress) : ClientSession :=
  match s.receiveThread, s.queries[i]? with
  | .idle, some q =>
    if q.addr = s.udp.remoteAddr then { s with receiveThread := .fromServer q publicAddr } else s
  | _, _ => s

/-- The next step of `udp_client::handle_query`. -/
def handleQuery (s : ClientSession) : ClientSession :=
  match s.receiveThread with
  | .idle => s
  | .fromServer q publicAddr =>
    if s.client.state = .handshake then { s with receiveThread := .inHandshake q publicAddr }
    else { s with receiveThread := .idle }
  | .inHandshake q publicAddr =>
    if s.udp.gotAddress = true then { s with receiveThread := .idle }
    else
      { s with
        udp := { s.udp with gotAddress := true }
        receiveThread := .gotAddress q publicAddr }
  | .gotAddress q publicAddr =>
    { s with
      commands := s.commands ++ [.login publicAddr q.attempt]
      receiveThread := .idle }

/-! ## The send thread -/

/-- The start of `udp_client::update`. -/
def update (s : ClientSession) (now : ℚ) : ClientSession :=
  match s.sendThread with
  | .idle =>
    match s.client.state with
    | .handshake => { s with sendThread := .inHandshake now }
    | .connected =>
      if s.udp.nextPingTime ≤ now then
        { s with udp := { s.udp with nextPingTime := s.udp.nextPingTime + pingInterval } }
      else s
    | _ => s
  | _ => s

/-- The deadline of the handshake is checked. -/
def checkDeadline (s : ClientSession) (now : ℚ) : ClientSession :=
  if s.udp.queryDeadline ≤ now then { s with sendThread := .timedOut s.udp.deadlineAttempt }
  else { s with sendThread := .querying now }

/-- The timer is set. -/
def setDeadline (s : ClientSession) (now : ℚ) : ClientSession :=
  { s with
    udp := {
      s.udp with
      queryDeadline := now + s.udp.queryTimeout
      nextPingTime := now
      deadlineAttempt := s.attempts } }

/-- A query is sent to the server. -/
def sendQuery (s : ClientSession) : ClientSession :=
  { s with
    udp := { s.udp with nextPingTime := s.udp.nextPingTime + queryInterval }
    queries := s.queries ++ [⟨s.attempts, s.udp.remoteAddr⟩] }

/-- The next step of `udp_client::update`. -/
def continueUpdate (s : ClientSession) : ClientSession :=
  match s.sendThread with
  | .idle => s
  | .inHandshake now =>
    if s.udp.startHandshake = true then
      { s with udp := { s.udp with startHandshake := false }, sendThread := .starting now }
    else s.checkDeadline now
  | .starting now => (s.setDeadline now).checkDeadline now
  | .timedOut attempt =>
    { s with commands := s.commands ++ [.timeout attempt], sendThread := .idle }
  | .querying now =>
    if s.udp.nextPingTime ≤ now then { s.sendQuery with sendThread := .idle }
    else { s with sendThread := .idle }

/-! ## What belongs to the command thread -/

/-- What only the command thread changes is the same. -/
structure SameConnection (s s' : ClientSession) : Prop where
  client_eq : s'.client = s.client
  connection_eq : s'.connection = s.connection
  tcpOpen_eq : s'.tcpOpen = s.tcpOpen
  handlers_eq : s'.handlers = s.handlers
  attempts_eq : s'.attempts = s.attempts
  performed_eq : s'.performed = s.performed
  calls_eq : s'.calls = s.calls

/-- A reply to the query leaves the connection alone. -/
theorem receiveReply_same (s : ClientSession) (i : Nat) (publicAddr : IpAddress) :
    s.SameConnection (s.receiveReply i publicAddr) := by
  unfold receiveReply
  split
  next =>
    split
    next => constructor <;> rfl
    next => constructor <;> rfl
  next => constructor <;> rfl

/-- So does the query. -/
theorem handleQuery_same (s : ClientSession) : s.SameConnection s.handleQuery := by
  unfold handleQuery
  split
  next => constructor <;> rfl
  next =>
    split
    next => constructor <;> rfl
    next => constructor <;> rfl
  next =>
    split
    next => constructor <;> rfl
    next => constructor <;> rfl
  next => constructor <;> rfl

/-- `update` leaves it alone too. -/
theorem update_same (s : ClientSession) (now : ℚ) : s.SameConnection (s.update now) := by
  unfold update
  split
  next =>
    split
    next => constructor <;> rfl
    next =>
      split
      next => constructor <;> rfl
      next => constructor <;> rfl
    next => constructor <;> rfl
  next => constructor <;> rfl

/-- A deadline only pushes a command. -/
theorem checkDeadline_same (s : ClientSession) (now : ℚ) :
    s.SameConnection (s.checkDeadline now) := by
  unfold checkDeadline
  split
  next => constructor <;> rfl
  next => constructor <;> rfl

/-- Another query is sent. -/
theorem continueUpdate_same (s : ClientSession) : s.SameConnection s.continueUpdate := by
  unfold continueUpdate
  split
  next => constructor <;> rfl
  next now _ =>
    split
    next => constructor <;> rfl
    next => exact s.checkDeadline_same now
  next now _ =>
    obtain ⟨hclient, hconnection, htcp, hhandlers, hattempts, hperformed, hcalls⟩ :=
      (s.setDeadline now).checkDeadline_same now
    exact ⟨hclient, hconnection, htcp, hhandlers, hattempts, hperformed, hcalls⟩
  next => constructor <;> rfl
  next =>
    split
    next => constructor <;> rfl
    next => constructor <;> rfl

/-! ## Runs -/

inductive Action
  /-- The user calls a method of the client. -/
  | push (cmd : UserCommand)
  | perform (o : Outcome)
  | receiveData (e : TcpEvent)
  | pingServer (responding sent : Bool)
  /-- `run()` returns. -/
  | stop
  | receiveReply (i : Nat) (publicAddr : IpAddress)
  | handleQuery
  | update (now : ℚ)
  | continueUpdate
  deriving DecidableEq, Repr

def step (T : AddressText) (localIpv4 : IpAddress) (s : ClientSession) (a : Action) :
    ClientSession :=
  if s.crashed = true then s
  else
    match a with
    | .push cmd => { s with commands := s.commands ++ [.user cmd] }
    | .perform o => s.perform o
    | .receiveData e => s.receiveData T localIpv4 e
    | .pingServer responding sent => s.pingServer responding sent
    | .stop => s.close
    | .receiveReply i publicAddr => s.receiveReply i publicAddr
    | .handleQuery => s.handleQuery
    | .update now => s.update now
    | .continueUpdate => s.continueUpdate

end ClientSession

/-! ## Replies that are read -/

namespace OscReader

/-- What a reader returns was read in two parts. -/
theorem bind_inv {α β : Type} {x : OscReader α} {f : α → OscReader β} {it : List OscArg}
    {r : β × List OscArg} (h : (x >>= f) it = .ok r) :
    ∃ a it', x it = .ok (a, it') ∧ f a it' = .ok r := by
  have h' : (x it >>= fun r => f r.1 r.2) = .ok r := h
  cases hx : x it with
  | error e =>
    rw [hx] at h'
    exact absurd h' nofun
  | ok y =>
    rw [hx] at h'
    exact ⟨y.1, y.2, rfl, h'⟩

theorem pure_inv {α : Type} {a : α} {it : List OscArg} {r : α × List OscArg}
    (h : (pure a : OscReader α) it = .ok r) : r.1 = a := by
  injection h with h
  rw [← h]

end OscReader

open OscReader

/-- A reply to a command: an error, or what a successful reply of this kind is. -/
def Command.Answer (cmd : Command) (token : Int) : ClientMessage → Prop
  | .error type token' _ _ _ => type = cmd.type ∧ token' = token
  | .groupJoin token' _ => cmd.type = .groupJoin ∧ token' = token
  | .groupLeave token' => cmd.type = .groupLeave ∧ token' = token
  | .groupUpdate token' _ => cmd.type = .groupUpdate ∧ token' = token
  | .userUpdate token' _ => cmd.type = .userUpdate ∧ token' = token
  | .request token' _ _ => cmd.type = .custom ∧ token' = token
  | _ => False

/-- An error answers the request with its token. -/
theorem readError_answer {cmd : Command} {token result : Int} {it : List OscArg}
    {r : ClientMessage × List OscArg} (h : readError cmd.type token result it = .ok r) :
    cmd.Answer token r.1 := by
  obtain ⟨code, it₁, -, h⟩ := bind_inv h
  obtain ⟨message, it₂, -, h⟩ := bind_inv h
  rw [pure_inv h]
  exact ⟨rfl, rfl⟩

/-- What is read as reply to a command is a reply to it. -/
theorem readResponse_answer {cmd : Command} {it it₁ : List OscArg} {token : Int}
    {r : ClientMessage × List OscArg} (htoken : asInt32 it = .ok (token, it₁))
    (h : readResponse cmd it = .ok r) : cmd.Answer token r.1 := by
  unfold readResponse at h
  rw [bind_ok htoken] at h
  obtain ⟨result, it₂, -, h⟩ := bind_inv h
  split at h
  next => exact readError_answer h
  next =>
    cases cmd with
    | groupJoin request =>
      obtain ⟨groupId, it₃, -, h⟩ := bind_inv h
      obtain ⟨groupFlags, it₄, -, h⟩ := bind_inv h
      obtain ⟨groupMetadata, it₅, -, h⟩ := bind_inv h
      obtain ⟨userId, it₆, -, h⟩ := bind_inv h
      obtain ⟨userFlags, it₇, -, h⟩ := bind_inv h
      obtain ⟨userMetadata, it₈, -, h⟩ := bind_inv h
      obtain ⟨privateMetadata, it₉, -, h⟩ := bind_inv h
      obtain ⟨relay, it', -, h⟩ := bind_inv h
      rw [pure_inv h]
      exact ⟨rfl, rfl⟩
    | groupLeave group =>
      rw [pure_inv h]
      exact ⟨rfl, rfl⟩
    | groupUpdate group md =>
      rw [pure_inv h]
      exact ⟨rfl, rfl⟩
    | userUpdate group md =>
      rw [pure_inv h]
      exact ⟨rfl, rfl⟩
    | custom flags data =>
      obtain ⟨flags', it₃, -, h⟩ := bind_inv h
      obtain ⟨data', it₄, -, h⟩ := bind_inv h
      split at h
      next =>
        rw [pure_inv h]
        exact ⟨rfl, rfl⟩
      next => exact absurd h nofun

/-- An answer has the token of its request. -/
theorem Command.Answer.token_eq {cmd : Command} {token token' : Int} {type : RequestType}
    {m : ClientMessage} (h : cmd.Answer token m) (hreply : m.reply? = some (type, token')) :
    token' = token := by
  cases m <;> simp_all [ClientMessage.reply?, Command.Answer]

/-- Changes are no replies. -/
theorem readChanged_reply? {f : Int → Int → Option AooData → ClientMessage}
    (hf : ∀ group user md, (f group user md).reply? = none) {it : List OscArg}
    {r : ClientMessage × List OscArg} (h : readChanged f it = .ok r) : r.1.reply? = none := by
  obtain ⟨group, it₁, -, h⟩ := bind_inv h
  obtain ⟨user, it₂, -, h⟩ := bind_inv h
  obtain ⟨md, it₃, -, h⟩ := bind_inv h
  split at h
  next =>
    rw [pure_inv h]
    exact hf ..
  next => exact absurd h nofun

/-- Neither is the login response. -/
theorem readLogin_reply? {it : List OscArg} {r : ClientMessage × List OscArg}
    (h : readLogin it = .ok r) : r.1.reply? = none := by
  obtain ⟨token, it₁, -, h⟩ := bind_inv h
  obtain ⟨result, it₂, -, h⟩ := bind_inv h
  split at h
  next =>
    obtain ⟨code, it₃, -, h⟩ := bind_inv h
    obtain ⟨message, it₄, -, h⟩ := bind_inv h
    rw [pure_inv h]
    rfl
  next =>
    obtain ⟨version, it₃, -, h⟩ := bind_inv h
    obtain ⟨id, it₄, -, h⟩ := bind_inv h
    obtain ⟨flags, it₅, -, h⟩ := bind_inv h
    obtain ⟨md, it₆, -, h⟩ := bind_inv h
    rw [pure_inv h]
    rfl

/-- What is read as a reply answers a pending request. -/
theorem readServerMessage_reply {T : AddressText} {localIpv4 : IpAddress}
    {pending : Int → Option Command} {pattern : ClientPattern} {it it' : List OscArg}
    {m : ClientMessage} {type : RequestType} {token : Int}
    (h : readServerMessage T localIpv4 pending pattern it = .ok (some (.message m), it'))
    (hreply : m.reply? = some (type, token)) :
    ∃ cmd, pending token = some cmd ∧ cmd.Answer token m := by
  -- The handlers of other messages do not give replies.
  have hmessage : ∀ {m' : ClientMessage}, some (TcpMessage.message m) = some (.message m') →
      m'.reply? = none → False := by
    intro m' h hnone
    injection h with h
    injection h with h
    rw [h, hnone] at hreply
    cases hreply
  have hother : ∀ {x : OscReader ClientMessage},
      (∀ r, x it = .ok r → r.1.reply? = none) →
      (do return some (.message (← x)) : OscReader (Option TcpMessage)) it =
        .ok (some (.message m), it') → False := by
    intro x hx h
    obtain ⟨m', it₁, hm', h⟩ := bind_inv h
    exact hmessage (pure_inv h) (hx _ hm')
  -- A reply is read by the request with its token.
  have hresponse : readServerMessage T localIpv4 pending .request it =
      .ok (some (.message m), it') → ∃ cmd, pending token = some cmd ∧ cmd.Answer token m := by
    intro h
    obtain ⟨it₀, it₁, hget, h⟩ := bind_inv h
    injection hget with hget
    injection hget with hit₀ hit₁
    subst hit₀ hit₁
    obtain ⟨token', it₂, htoken, h⟩ := bind_inv h
    cases hcmd : pending token' with
    | none =>
      rw [hcmd] at h
      cases pure_inv h
    | some cmd =>
      rw [hcmd] at h
      obtain ⟨u, it₃, hset, h⟩ := bind_inv h
      injection hset with hset
      injection hset with _ hit₃
      subst hit₃
      obtain ⟨m', it₄, hm', h⟩ := bind_inv h
      injection pure_inv h with h
      injection h with h
      subst h
      have hanswer := readResponse_answer htoken hm'
      rw [hanswer.token_eq hreply]
      exact ⟨cmd, hcmd, hanswer⟩
  cases pattern with
  | ping => cases pure_inv h
  | pong => exact (hmessage (pure_inv h) rfl).elim
  | peerJoin =>
    obtain ⟨p, it₁, -, h⟩ := bind_inv h
    exact (hmessage (pure_inv h) rfl).elim
  | peerLeave =>
    obtain ⟨group, it₁, -, h⟩ := bind_inv h
    obtain ⟨user, it₂, -, h⟩ := bind_inv h
    exact (hmessage (pure_inv h) rfl).elim
  | peerChanged =>
    exact (hother (fun r hr => readChanged_reply? (fun _ _ _ => rfl) hr) h).elim
  | login => exact (hother (fun r hr => readLogin_reply? hr) h).elim
  | message =>
    obtain ⟨md, it₁, -, h⟩ := bind_inv h
    split at h
    next => cases pure_inv h
    next => cases h
  | groupChanged =>
    exact (hother (fun r hr => readChanged_reply? (fun _ _ _ => rfl) hr) h).elim
  | userChanged =>
    exact (hother (fun r hr => readChanged_reply? (fun _ _ _ => rfl) hr) h).elim
  | groupEject =>
    obtain ⟨group, it₁, -, h⟩ := bind_inv h
    exact (hmessage (pure_inv h) rfl).elim
  | groupJoin => exact hresponse h
  | groupLeave => exact hresponse h
  | groupUpdate => exact hresponse h
  | userUpdate => exact hresponse h
  | request => exact hresponse h

/-- A reply that arrives answers a request that is pending. -/
theorem receive_answer {T : AddressText} {localIpv4 : IpAddress} {pending : Int → Option Command}
    {osc : OscMessage} {m : ClientMessage} {type : RequestType} {token : Int}
    (h : receive T localIpv4 pending osc = .ok (some (.message m)))
    (hreply : m.reply? = some (type, token)) :
    ∃ cmd, pending token = some cmd ∧ cmd.Answer token m := by
  unfold receive at h
  split at h
  next pattern _ =>
    cases hread : readServerMessage T localIpv4 pending pattern osc.args with
    | error e =>
      rw [hread] at h
      exact absurd h nofun
    | ok r =>
      rw [hread] at h
      injection h with h
      have hmessage : readServerMessage T localIpv4 pending pattern osc.args =
          .ok (some (.message m), r.2) := by
        rw [hread, ← h]
      exact readServerMessage_reply hmessage hreply
  next => exact absurd h nofun

/-! ## What messages leave alone -/

namespace Client

/-- The reply to a request does not change the state, and its request is no longer pending. -/
theorem respond_answer {c : Client} {token token' : Int} {cmd : Command} {m : ClientMessage}
    (hcmd : Keyed.lookup Prod.fst token c.pendingRequests = some (token', cmd))
    (hanswer : cmd.Answer token m) :
    (c.respond token m).state = c.state ∧
      (c.respond token m).pendingRequests = Keyed.remove Prod.fst token c.pendingRequests ∧
      (c.respond token m).nextToken = c.nextToken := by
  have hresponse : (c.handleResponse cmd m).state = c.state ∧
      (c.handleResponse cmd m).pendingRequests = c.pendingRequests ∧
      (c.handleResponse cmd m).nextToken = c.nextToken := by
    cases cmd with
    | groupJoin r =>
      cases m
      case groupJoin token'' reply => exact joinGroup_unchanged c r reply
      all_goals simp_all [Command.Answer, handleResponse, Command.type]
    | groupLeave group =>
      cases m <;> simp_all [Command.Answer, handleResponse, Command.type, leaveGroup]
    | groupUpdate group md => cases m <;> exact ⟨rfl, rfl, rfl⟩
    | userUpdate group md => cases m <;> exact ⟨rfl, rfl, rfl⟩
    | custom flags data =>
      cases m <;> simp_all [Command.Answer, handleResponse, Command.type]
  obtain ⟨hstate, hpending, htoken⟩ := hresponse
  unfold respond
  rw [hcmd]
  exact ⟨hstate, congrArg _ hpending, htoken⟩

/-- Other messages change the peers, or remove a group. -/
theorem handleServerMessage_other (c : Client) {m : ClientMessage} (hreply : m.reply? = none)
    (hlogin : m.pattern ≠ .login) :
    (c.handleServerMessage m).state = c.state ∧
      (c.handleServerMessage m).pendingRequests = c.pendingRequests ∧
      (c.handleServerMessage m).nextToken = c.nextToken ∧
      (c.groups = [] → (c.handleServerMessage m).groups = []) := by
  unfold handleServerMessage
  split
  next => exact ⟨rfl, rfl, rfl, id⟩
  next =>
    cases m with
    | login => exact absurd rfl hlogin
    | error type =>
      cases type
      case login => exact absurd rfl hlogin
      all_goals exact absurd hreply nofun
    | groupJoin | groupLeave | groupUpdate | userUpdate | request => exact absurd hreply nofun
    | peerJoin p =>
      show (c.handlePeerJoin p).state = _ ∧ (c.handlePeerJoin p).pendingRequests = _ ∧
        (c.handlePeerJoin p).nextToken = _ ∧ (_ → (c.handlePeerJoin p).groups = [])
      unfold handlePeerJoin
      split
      next => exact ⟨rfl, rfl, rfl, id⟩
      next =>
        split
        next => exact ⟨rfl, rfl, rfl, id⟩
        next => exact ⟨rfl, rfl, rfl, id⟩
    | peerLeave group user =>
      show (c.handlePeerLeave group user).state = _ ∧
        (c.handlePeerLeave group user).pendingRequests = _ ∧
        (c.handlePeerLeave group user).nextToken = _ ∧
        (_ → (c.handlePeerLeave group user).groups = [])
      unfold handlePeerLeave
      split
      next => exact ⟨rfl, rfl, rfl, id⟩
      next =>
        split
        next => exact ⟨rfl, rfl, rfl, id⟩
        next => exact ⟨rfl, rfl, rfl, id⟩
    | groupEject group =>
      refine ⟨rfl, rfl, rfl, fun h => ?_⟩
      show Keyed.remove GroupMembership.groupId group c.groups = []
      rw [h]
      rfl
    | groupChanged | userChanged | peerChanged | pong => exact ⟨rfl, rfl, rfl, id⟩

end Client

namespace ClientSession

/-- What a message does. -/
theorem handleMessage_cases (s : ClientSession) (m : ClientMessage) :
    (m.pattern = .login ∧ ∃ version, s.handleMessage m = s.handleLogin version) ∨
    (m.pattern = .login ∧ s.handleMessage m = s.handleLoginError) ∨
    (∃ type token, m.reply? = some (type, token) ∧ s.handleMessage m = s.respond token m) ∨
    (m.reply? = none ∧ m.pattern ≠ .login ∧
      s.handleMessage m = { s with client := s.client.handleServerMessage m }) := by
  cases m with
  | login token version id md => exact .inl ⟨rfl, version, rfl⟩
  | error type token result code message =>
    cases type
    case login => exact .inr (.inl ⟨rfl, rfl⟩)
    all_goals exact .inr (.inr (.inl ⟨_, token, rfl, rfl⟩))
  | groupJoin token | groupLeave token | groupUpdate token | userUpdate token | request token =>
    exact .inr (.inr (.inl ⟨_, token, rfl, rfl⟩))
  | peerJoin | peerLeave | groupChanged | userChanged | peerChanged | groupEject | pong =>
    exact .inr (.inr (.inr ⟨rfl, nofun, rfl⟩))

/-- A TCP connection belongs to a login. -/
def TcpInv (s : ClientSession) : Prop :=
  s.tcpOpen = true → s.client.state = .connecting ∨ s.client.state = .connected

/-- There is no TCP connection in the handshake. -/
theorem TcpInv.ne_handshake {s : ClientSession} (h : s.TcpInv) (hopen : s.tcpOpen = true) :
    s.client.state ≠ .handshake := by
  rcases h hopen with hs | hs
  · rw [hs]
    decide
  · rw [hs]
    decide

/-- An attempt begins without one. -/
theorem TcpInv.beginAttempt {s : ClientSession} (h : s.TcpInv)
    (hstate : s.client.state = .disconnected) (handler : Nat) (timeout : ℚ) (remote : IpAddress) :
    (s.beginAttempt handler timeout remote).TcpInv := by
  intro hopen
  rcases h hopen with hs | hs
  · exact absurd (hs.symm.trans hstate) nofun
  · exact absurd (hs.symm.trans hstate) nofun

end ClientSession

end Aoo.Net
