import Aoo.Net.Commands

/-!
# Attempts to connect

A `login_cmd` and a `timeout_cmd` are made by the threads that receive and send, and performed by
the command thread. By then the attempt may be over, and another one may have begun. The commands do
not say which attempt they are for: a login is performed even if there is no connection, and a
timeout closes whatever handshake it finds.

The commands act on their own attempt as long as (`Timely`) an attempt does not begin while
something of an earlier one is under way, a handshake is not given up while a login is, and replies
to queries of earlier attempts do not arrive in a handshake.

Main result: `commands_inTime`.
-/

namespace Aoo.Net

namespace ClientSession

variable {s s' : ClientSession}

/-! ## Commands under way -/

/-- The attempts of the logins in a queue. -/
def logins (cmds : List QueuedCommand) : List Nat :=
  cmds.filterMap fun
    | .login _ attempt => some attempt
    | _ => none

/-- The attempts of the timeouts in a queue. -/
def timeouts (cmds : List QueuedCommand) : List Nat :=
  cmds.filterMap fun
    | .timeout attempt => some attempt
    | _ => none

/-- The receive thread is about to put a login in the queue, or may be. -/
def LoginUnderWay : ReceiveThread → Prop
  | .inHandshake _ _ | .gotAddress _ _ => True
  | .idle | .fromServer _ _ => False

/-- The send thread is about to put a timeout in the queue. -/
def TimeoutUnderWay : SendThread → Prop
  | .timedOut _ => True
  | .idle | .inHandshake _ | .starting _ | .querying _ => False

/-- A command acts on the attempt that it was made for. A timeout that finds no handshake has no
effect. -/
def InTime (s : ClientSession) : QueuedCommand → Prop
  | .user _ => True
  | .login _ attempt =>
    ∃ c, s.connection = some c ∧ s.client.state = .handshake ∧ c.attempt = attempt
  | .timeout attempt =>
    ∀ c, s.connection = some c → s.client.state = .handshake → c.attempt = attempt

/-- No login is under way. -/
def NoLogin (s : ClientSession) (cmds : List QueuedCommand) : Prop :=
  logins cmds = [] ∧ ¬ LoginUnderWay s.receiveThread

/-- The steps that keep attempts apart. -/
def Timely (s : ClientSession) : Action → Prop
  | .perform o =>
    match s.commands with
    | .user (.connect _) :: cmds =>
      s.client.state = .disconnected → o.resolved ≠ none →
        s.NoLogin cmds ∧ timeouts cmds = [] ∧ ¬ TimeoutUnderWay s.sendThread
    | .timeout _ :: cmds => s.client.state = .handshake → s.NoLogin cmds
    | _ => True
  | .stop => s.client.state = .handshake → s.NoLogin s.commands
  | .handleQuery =>
    match s.receiveThread with
    | .fromServer q _ => s.client.state = .handshake → q.attempt = s.attempts
    | _ => True
  | _ => True

instance : DecidablePred LoginUnderWay
  | .inHandshake _ _ | .gotAddress _ _ => .isTrue trivial
  | .idle | .fromServer _ _ => .isFalse id

instance : DecidablePred TimeoutUnderWay
  | .timedOut _ => .isTrue trivial
  | .idle | .inHandshake _ | .starting _ | .querying _ => .isFalse id

instance (cmds : List QueuedCommand) : Decidable (s.NoLogin cmds) :=
  inferInstanceAs (Decidable (_ ∧ _))

instance decidableTimely : DecidablePred s.Timely
  | .perform o =>
    match h : s.commands with
    | .user (.connect _) :: cmds =>
      decidable_of_iff (s.client.state = .disconnected → o.resolved ≠ none →
        s.NoLogin cmds ∧ timeouts cmds = [] ∧ ¬ TimeoutUnderWay s.sendThread) (by simp [Timely, h])
    | .timeout _ :: cmds =>
      decidable_of_iff (s.client.state = .handshake → s.NoLogin cmds) (by simp [Timely, h])
    | .user .disconnect :: _ | .user (.request _) :: _ | .login _ _ :: _ | [] =>
      .isTrue (by simp [Timely, h])
  | .stop => inferInstanceAs (Decidable (s.client.state = .handshake → s.NoLogin s.commands))
  | .handleQuery =>
    match h : s.receiveThread with
    | .fromServer q _ =>
      decidable_of_iff (s.client.state = .handshake → q.attempt = s.attempts) (by simp [Timely, h])
    | .idle | .inHandshake _ _ | .gotAddress _ _ => .isTrue (by simp [Timely, h])
  | .push _ | .receiveData _ | .pingServer _ _ | .receiveReply _ _ | .update _ | .continueUpdate =>
    .isTrue trivial

/-! ## Invariants -/

/-- What the receive thread holds is of the current attempt. It puts one login in the queue for each
attempt, and while it is under way the handshake goes on. -/
structure LoginInv (s : ClientSession) : Prop where
  handshake : s.client.state = .handshake → ∃ c, s.connection = some c ∧ c.attempt = s.attempts
  tcp_open : s.TcpInv
  logins_current : ∀ a ∈ logins s.commands, a = s.attempts ∧ s.client.state = .handshake
  logins_length : (logins s.commands).length ≤ 1
  logins_nil : s.udp.gotAddress = false → logins s.commands = []
  inHandshake : ∀ q ip, s.receiveThread = .inHandshake q ip →
    q.attempt = s.attempts ∧ (s.udp.gotAddress = false → s.client.state = .handshake)
  gotAddress : ∀ q ip, s.receiveThread = .gotAddress q ip →
    q.attempt = s.attempts ∧ s.client.state = .handshake ∧ s.udp.gotAddress = true ∧
      logins s.commands = []

/-- The deadline is that of the current attempt, unless it is about to be set. -/
structure TimeoutInv (s : ClientSession) : Prop where
  timeouts_current : ∀ a ∈ timeouts s.commands, a = s.attempts
  timedOut : ∀ a, s.sendThread = .timedOut a → a = s.attempts
  deadline : s.udp.startHandshake = true ∨ s.udp.deadlineAttempt = s.attempts ∨
    ∃ now, s.sendThread = .starting now

/-- The deadline is that of the current attempt if the timer need not be set. -/
theorem TimeoutInv.deadline_or (h : s.TimeoutInv) (hne : ∀ now, s.sendThread ≠ .starting now) :
    s.udp.startHandshake = true ∨ s.udp.deadlineAttempt = s.attempts := by
  rcases h.deadline with hstart | hdeadline | ⟨now, hstarting⟩
  · exact .inl hstart
  · exact .inr hdeadline
  · exact absurd hstarting (hne now)

/-- A new client has not tried to log in. -/
theorem loginInv_start : LoginInv {} where
  handshake := nofun
  tcp_open := nofun
  logins_current := nofun
  logins_length := Nat.zero_le _
  logins_nil _ := rfl
  inHandshake := nofun
  gotAddress := nofun

/-- No timeout is set either. -/
theorem timeoutInv_start : TimeoutInv {} where
  timeouts_current := nofun
  timedOut := nofun
  deadline := .inr (.inl rfl)

/-! ## The command thread -/

/-- The queue and the other threads are the same. -/
structure SameThreads (s s' : ClientSession) : Prop where
  commands_eq : s'.commands = s.commands
  udp_eq : s'.udp = s.udp
  receiveThread_eq : s'.receiveThread = s.receiveThread
  sendThread_eq : s'.sendThread = s.sendThread
  attempts_eq : s'.attempts = s.attempts

/-- The invariant is about the threads and their queue. -/
theorem TimeoutInv.same (h : s.TimeoutInv) (hs : s.SameThreads s') : s'.TimeoutInv := by
  obtain ⟨hcommands, hudp, -, hsend, hattempts⟩ := hs
  constructor
  · rw [hcommands, hattempts]
    exact h.timeouts_current
  · rw [hsend, hattempts]
    exact h.timedOut
  · rw [hudp, hsend, hattempts]
    exact h.deadline

/-- The handshake goes on as before, or there is none. -/
structure Kept (s s' : ClientSession) : Prop where
  same : s.SameThreads s'
  state : (s'.client.state = s.client.state ∧ s'.connection = s.connection ∧
      s'.tcpOpen = s.tcpOpen) ∨
    (s.client.state ≠ .handshake ∧ s'.client.state ≠ .handshake ∧ s'.TcpInv)

/-- There is no handshake any more, and no login under way. -/
theorem LoginInv.leave (h : s.LoginInv) (hs : s.SameThreads s')
    (hstate : s'.client.state ≠ .handshake) (htcp : s'.TcpInv) (hlogins : logins s.commands = [])
    (hgot : ∀ q ip, s.receiveThread ≠ .gotAddress q ip)
    (hin : ∀ q ip, s.receiveThread = .inHandshake q ip → s.udp.gotAddress = true) :
    s'.LoginInv := by
  obtain ⟨hcommands, hudp, hreceive, -, hattempts⟩ := hs
  constructor
  · exact fun hhandshake => absurd hhandshake hstate
  · exact htcp
  · rw [hcommands, hlogins]
    exact nofun
  · rw [hcommands, hlogins]
    exact Nat.zero_le _
  · rw [hcommands]
    exact fun _ => hlogins
  · rw [hreceive, hattempts, hudp]
    intro q ip hq
    refine ⟨(h.inHandshake q ip hq).1, fun hfalse => ?_⟩
    rw [hin q ip hq] at hfalse
    exact absurd hfalse nofun
  · rw [hreceive]
    exact fun q ip hq => absurd hq (hgot q ip)

/-- Without a handshake no login is under way. -/
theorem LoginInv.logins_of_ne (h : s.LoginInv) (hstate : s.client.state ≠ .handshake) :
    logins s.commands = [] ∧ (∀ q ip, s.receiveThread ≠ .gotAddress q ip) ∧
      ∀ q ip, s.receiveThread = .inHandshake q ip → s.udp.gotAddress = true := by
  refine ⟨?_, fun q ip hq => hstate (h.gotAddress q ip hq).2.1, fun q ip hq => ?_⟩
  · exact List.eq_nil_iff_forall_not_mem.mpr fun a ha => hstate (h.logins_current a ha).2
  · by_contra hfalse
    exact hstate ((h.inHandshake q ip hq).2 (Bool.eq_false_iff.mpr hfalse))

/-- A step that keeps the login, or gives it up. -/
theorem LoginInv.kept (h : s.LoginInv) (hs : s.Kept s') : s'.LoginInv := by
  rcases hs.state with ⟨hstate, hconnection, htcp⟩ | ⟨hbefore, hafter, htcp⟩
  · obtain ⟨hcommands, hudp, hreceive, -, hattempts⟩ := hs.same
    constructor
    · rw [hstate, hconnection, hattempts]
      exact h.handshake
    · rw [TcpInv, hstate, htcp]
      exact h.tcp_open
    · rw [hstate, hcommands, hattempts]
      exact h.logins_current
    · rw [hcommands]
      exact h.logins_length
    · rw [hcommands, hudp]
      exact h.logins_nil
    · rw [hstate, hreceive, hattempts, hudp]
      exact h.inHandshake
    · rw [hstate, hreceive, hattempts, hudp, hcommands]
      exact h.gotAddress
  · obtain ⟨hlogins, hgot, hin⟩ := h.logins_of_ne hbefore
    exact h.leave hs.same hafter htcp hlogins hgot hin

theorem Kept.refl (s : ClientSession) : s.Kept s := ⟨by constructor <;> rfl, .inl ⟨rfl, rfl, rfl⟩⟩

/-- A call to a handler is no attempt. -/
theorem reply_kept (s : ClientSession) (handler : Nat) : s.Kept (s.reply handler) :=
  ⟨by constructor <;> rfl, .inl ⟨rfl, rfl, rfl⟩⟩

/-- A client that is not in a handshake closes without one. -/
theorem close_kept (h : s.client.state ≠ .handshake) : s.Kept s.close :=
  ⟨by constructor <;> rfl, .inr ⟨h, nofun, nofun⟩⟩

/-- A failed send closes the connection, as the user would. -/
theorem sendServerMessage_kept (htcp : s.TcpInv)
    (sent : Bool) : s.Kept (s.sendServerMessage sent) := by
  unfold sendServerMessage
  split
  next hopen => exact close_kept (htcp.ne_handshake hopen.1)
  next => exact .refl s

/-- `disconnect` ends what has been connected. -/
theorem performDisconnect_kept (s : ClientSession) (handler : Nat) :
    s.Kept (s.performDisconnect handler) := by
  unfold performDisconnect
  split
  next => exact s.reply_kept handler
  next hstate =>
    have hne : s.client.state ≠ .handshake := by
      rw [not_not.mp hstate]
      decide
    exact ⟨by constructor <;> rfl, .inr ⟨hne, nofun, nofun⟩⟩

/-- Requests leave the login alone. -/
theorem performRequest_kept (htcp : s.TcpInv)
    (handler : Nat) (cmd : Command) (o : Outcome) : s.Kept (s.performRequest handler cmd o) := by
  unfold performRequest
  split
  next =>
    obtain ⟨⟨hcommands, hudp, hreceive, hsend, hattempts⟩, hstate⟩ :=
      sendServerMessage_kept (s := s.pend handler cmd) htcp o.sent
    exact ⟨⟨hcommands, hudp, hreceive, hsend, hattempts⟩, hstate⟩
  next => exact s.reply_kept handler

/-- A ping that is not answered closes the connection. -/
theorem pingServer_kept (htcp : s.TcpInv)
    (responding sent : Bool) : s.Kept (s.pingServer responding sent) := by
  unfold pingServer
  split
  next hstate =>
    split
    next => exact sendServerMessage_kept htcp sent
    next => exact close_kept (by rw [hstate]; decide)
  next => exact .refl s

/-! ## Messages of the server do not begin a handshake -/

/-- A login response counts in the handshake only. -/
theorem handleLogin_kept (h : s.client.state ≠ .handshake) (version : String) :
    s.Kept (s.handleLogin version) := by
  unfold handleLogin
  split
  next => exact .refl s
  next =>
    split
    next => exact ⟨by constructor <;> rfl, .inr ⟨h, nofun, fun _ => .inr rfl⟩⟩
    next => exact ⟨by constructor <;> rfl, .inr ⟨h, nofun, nofun⟩⟩

/-- Messages of the server do not begin an attempt. -/
theorem handleMessage_kept (h : s.client.state ≠ .handshake) {m : ClientMessage}
    (hanswer : ∀ type token, m.reply? = some (type, token) →
      ∃ cmd, s.pending token = some cmd ∧ cmd.Answer token m) : s.Kept (s.handleMessage m) := by
  rcases s.handleMessage_cases m with ⟨-, version, heq⟩ | ⟨-, heq⟩ | ⟨type, token, hreply, heq⟩ |
    ⟨hreply, hlogin, heq⟩
  · rw [heq]
    exact handleLogin_kept h version
  · rw [heq, handleLoginError]
    split
    next => exact .refl s
    next => exact ⟨by constructor <;> rfl, .inr ⟨h, nofun, nofun⟩⟩
  · obtain ⟨cmd, hcmd, hmatch⟩ := hanswer type token hreply
    obtain ⟨⟨token', cmd'⟩, hrequest, rfl⟩ := Option.map_eq_some_iff.mp hcmd
    rw [heq, respond]
    split
    next => exact .refl s
    next =>
      exact ⟨by constructor <;> rfl, .inl ⟨(Client.respond_answer hrequest hmatch).1, rfl, rfl⟩⟩
  · rw [heq]
    have hstate := (s.client.handleServerMessage_other hreply hlogin).1
    exact ⟨by constructor <;> rfl, .inl ⟨hstate, rfl, rfl⟩⟩

/-- Neither does what TCP brings. -/
theorem receiveData_kept (htcp : s.TcpInv) (T : AddressText) (localIpv4 : IpAddress)
    (e : TcpEvent) : s.Kept (s.receiveData T localIpv4 e) := by
  unfold receiveData
  split
  next hopen =>
    have hstate := htcp.ne_handshake hopen
    split
    next m =>
      unfold handleServerMessage
      split
      next m hread => exact handleMessage_kept hstate fun _ _ hreply => receive_answer hread hreply
      next => exact .refl s
      next => exact close_kept hstate
    next => exact close_kept hstate
    next => exact close_kept hstate
  next => exact .refl s

/-! ## Performing commands -/

/-- A query that is answered in the handshake will log in. -/
theorem loginUnderWay_of_inHandshake {q : Query} {ip : IpAddress}
    (h : s.receiveThread = .inHandshake q ip) : LoginUnderWay s.receiveThread := by
  rw [h]
  trivial

/-- So will one that has got its address. -/
theorem loginUnderWay_of_gotAddress {q : Query} {ip : IpAddress}
    (h : s.receiveThread = .gotAddress q ip) : LoginUnderWay s.receiveThread := by
  rw [h]
  trivial

/-- A handshake is given up while no login is under way. -/
theorem LoginInv.giveUp (h : s.LoginInv) (hs : s.SameThreads s')
    (hstate : s'.client.state ≠ .handshake) (htcp : s'.TcpInv) (hnone : s.NoLogin s.commands) :
    s'.LoginInv := by
  refine h.leave hs hstate htcp hnone.1 (fun q ip hq => ?_) fun q ip hq => ?_
  · exact hnone.2 (loginUnderWay_of_gotAddress hq)
  · exact absurd (loginUnderWay_of_inHandshake hq) hnone.2

/-- A command is taken from the queue. -/
theorem LoginInv.pop (h : s.LoginInv) {cmd : QueuedCommand} {cmds : List QueuedCommand}
    (hcommands : s.commands = cmd :: cmds) : { s with commands := cmds }.LoginInv := by
  have hsublist : (logins cmds).Sublist (logins s.commands) := by
    rw [hcommands]
    exact (List.sublist_cons_self cmd cmds).filterMap _
  exact {
    handshake := h.handshake
    tcp_open := h.tcp_open
    logins_current := fun a ha => h.logins_current a (hsublist.subset ha)
    logins_length := hsublist.length_le.trans h.logins_length
    logins_nil := fun hgot => List.sublist_nil.mp (h.logins_nil hgot ▸ hsublist)
    inHandshake := h.inHandshake
    gotAddress := fun q ip hq => by
      obtain ⟨hattempt, hstate, hgot, hlogins⟩ := h.gotAddress q ip hq
      exact ⟨hattempt, hstate, hgot, List.sublist_nil.mp (hlogins ▸ hsublist)⟩ }

/-- The timeouts behind a command that is taken are still of the current attempt. -/
theorem TimeoutInv.pop (h : s.TimeoutInv) {cmd : QueuedCommand} {cmds : List QueuedCommand}
    (hcommands : s.commands = cmd :: cmds) : { s with commands := cmds }.TimeoutInv := by
  have hsublist : (timeouts cmds).Sublist (timeouts s.commands) := by
    rw [hcommands]
    exact (List.sublist_cons_self cmd cmds).filterMap _
  exact ⟨fun a ha => h.timeouts_current a (hsublist.subset ha), h.timedOut, h.deadline⟩

/-- A new attempt begins while nothing of an earlier one is under way. -/
theorem LoginInv.beginAttempt (h : s.LoginInv) (hstate : s.client.state = .disconnected)
    (hnone : s.NoLogin s.commands) (handler : Nat) (timeout : ℚ) (remote : IpAddress) :
    (s.beginAttempt handler timeout remote).LoginInv where
  handshake _ := ⟨_, rfl, rfl⟩
  tcp_open := h.tcp_open.beginAttempt hstate handler timeout remote
  logins_current a ha := by
    have hnil : logins s.commands = [] := hnone.1
    rw [show (s.beginAttempt handler timeout remote).commands = s.commands from rfl, hnil] at ha
    exact absurd ha List.not_mem_nil
  logins_length := h.logins_length
  logins_nil _ := hnone.1
  inHandshake q ip hq := absurd (loginUnderWay_of_inHandshake (s := s) hq) hnone.2
  gotAddress q ip hq := absurd (loginUnderWay_of_gotAddress (s := s) hq) hnone.2

/-- A new attempt begins when no old timeout is left. -/
theorem TimeoutInv.beginAttempt (htimeouts : timeouts s.commands = [])
    (hsend : ¬ TimeoutUnderWay s.sendThread) (handler : Nat) (timeout : ℚ) (remote : IpAddress) :
    (s.beginAttempt handler timeout remote).TimeoutInv where
  timeouts_current a ha := by
    rw [show (s.beginAttempt handler timeout remote).commands = s.commands from rfl,
      htimeouts] at ha
    exact absurd ha List.not_mem_nil
  timedOut a ha := by
    have hthread : s.sendThread = .timedOut a := ha
    exact absurd (by rw [hthread]; trivial) hsend
  deadline := .inl rfl

/-- Everything under way is of the current attempt. -/
structure AttemptInv (s : ClientSession) : Prop where
  login : s.LoginInv
  timeout : s.TimeoutInv

/-- A step that keeps login and timeouts keeps the attempt. -/
theorem AttemptInv.kept (h : s.AttemptInv) (hs : s.Kept s') : s'.AttemptInv :=
  ⟨h.login.kept hs, h.timeout.same hs.same⟩

/-- A user command: only a connect begins an attempt. -/
theorem AttemptInv.performUser (h : s.AttemptInv) {cmd : UserCommand} {o : Outcome}
    (hgood : ∀ timeout, cmd = .connect timeout → s.client.state = .disconnected →
      o.resolved ≠ none →
      s.NoLogin s.commands ∧ timeouts s.commands = [] ∧ ¬ TimeoutUnderWay s.sendThread) :
    (s.performUser cmd o).AttemptInv := by
  have htake : s.Kept { s with performed := s.performed + 1 } :=
    ⟨by constructor <;> rfl, .inl ⟨rfl, rfl, rfl⟩⟩
  have h' := h.kept htake
  cases cmd with
  | connect timeout =>
    show (ClientSession.performConnect _ s.performed timeout o).AttemptInv
    unfold performConnect
    split
    next => exact h'.kept (reply_kept _ _)
    next hstate =>
      split
      next => exact h'.kept (reply_kept _ _)
      next remote hresolved =>
        have hdisconnected := not_not.mp hstate
        obtain ⟨hnone, htimeouts, hsend⟩ :=
          hgood timeout rfl hdisconnected (by rw [hresolved]; exact nofun)
        refine ⟨h'.login.beginAttempt hdisconnected hnone _ _ _, ?_⟩
        exact TimeoutInv.beginAttempt (s := { s with performed := s.performed + 1 }) htimeouts hsend
          _ _ _
  | disconnect => exact h'.kept (performDisconnect_kept _ _)
  | request cmd => exact h'.kept (performRequest_kept h'.login.tcp_open _ _ _)

/-- The login is the only one, and it ends the handshake. -/
theorem AttemptInv.performLogin (h : s.AttemptInv) {ip : IpAddress} {attempt : Nat}
    {cmds : List QueuedCommand} (hcommands : s.commands = .login ip attempt :: cmds)
    (o : Outcome) : ({ s with commands := cmds }.performLogin o).AttemptInv := by
  have hpop := h.login.pop hcommands
  have hlogins : logins s.commands = attempt :: logins cmds := by rw [hcommands]; rfl
  have hrest : logins cmds = [] := by
    have hlength := h.login.logins_length
    rw [hlogins, List.length_cons] at hlength
    exact List.length_eq_zero_iff.mp (by omega)
  have hgot : s.udp.gotAddress = true := by
    by_contra hfalse
    have hnil := h.login.logins_nil (Bool.eq_false_iff.mpr hfalse)
    rw [hlogins] at hnil
    exact absurd hnil nofun
  have hnotGot : ∀ q ip, s.receiveThread ≠ .gotAddress q ip := by
    intro q ip hq
    have hnil := (h.login.gotAddress q ip hq).2.2.2
    rw [hlogins] at hnil
    exact absurd hnil nofun
  have hleave : ∀ {s' : ClientSession}, { s with commands := cmds }.SameThreads s' →
      s'.client.state ≠ .handshake → s'.TcpInv → s'.AttemptInv := by
    intro s' hs hstate htcp
    exact ⟨hpop.leave hs hstate htcp hrest hnotGot fun _ _ _ => hgot,
      (h.timeout.pop hcommands).same hs⟩
  unfold ClientSession.performLogin
  split
  next =>
    -- An assertion fails, and the threads stay where they are.
    have hs : { s with commands := cmds }.Kept { s with commands := cmds, crashed := true } :=
      ⟨by constructor <;> rfl, .inl ⟨rfl, rfl, rfl⟩⟩
    exact ⟨hpop.kept hs, (h.timeout.pop hcommands).same hs.same⟩
  next =>
    split
    next =>
      unfold sendServerMessage
      split
      next => exact hleave (by constructor <;> rfl) nofun nofun
      next => exact hleave (by constructor <;> rfl) nofun fun _ => .inl rfl
    next => exact hleave (by constructor <;> rfl) nofun nofun

/-- A timeout in time closes the attempt that it was set for. -/
theorem AttemptInv.performTimeout (h : s.AttemptInv)
    (hgood : s.client.state = .handshake → s.NoLogin s.commands) :
    s.performTimeout.AttemptInv := by
  unfold ClientSession.performTimeout
  split
  next => exact h
  next c _ =>
    split
    next hstate =>
      have hs : s.SameThreads (s.reply c.handler).close := by constructor <;> rfl
      exact ⟨h.login.giveUp hs nofun nofun (hgood hstate), h.timeout.same hs⟩
    next => exact h

/-- Each command keeps the invariant, if it comes in time. -/
theorem AttemptInv.perform (h : s.AttemptInv) {o : Outcome} (hgood : s.Timely (.perform o)) :
    (s.perform o).AttemptInv := by
  unfold Timely at hgood
  unfold ClientSession.perform
  cases hcommands : s.commands with
  | nil => exact h
  | cons cmd cmds =>
    rw [hcommands] at hgood
    have hpop : { s with commands := cmds }.AttemptInv :=
      ⟨h.login.pop hcommands, h.timeout.pop hcommands⟩
    cases cmd with
    | user cmd =>
      refine hpop.performUser fun timeout heq hstate hresolved => ?_
      subst heq
      exact hgood hstate hresolved
    | login ip attempt => exact h.performLogin hcommands o
    | timeout attempt => exact hpop.performTimeout hgood

/-- So does a close, unless a login is still on its way. -/
theorem AttemptInv.stop (h : s.AttemptInv)
    (hgood : s.client.state = .handshake → s.NoLogin s.commands) : s.close.AttemptInv := by
  have hs : s.SameThreads s.close := by constructor <;> rfl
  by_cases hstate : s.client.state = .handshake
  · exact ⟨h.login.giveUp hs nofun nofun (hgood hstate), h.timeout.same hs⟩
  · exact h.kept (close_kept hstate)

/-! ## The other threads -/

/-- Users may push commands at any time. -/
theorem AttemptInv.push (h : s.AttemptInv) (cmd : UserCommand) :
    { s with commands := s.commands ++ [QueuedCommand.user cmd] }.AttemptInv := by
  have hlogins : logins (s.commands ++ [.user cmd]) = logins s.commands := by
    rw [logins, List.filterMap_append]
    exact List.append_nil _
  have htimeouts : timeouts (s.commands ++ [.user cmd]) = timeouts s.commands := by
    rw [timeouts, List.filterMap_append]
    exact List.append_nil _
  refine ⟨?_, ?_⟩
  · constructor
    · exact h.login.handshake
    · exact h.login.tcp_open
    · rw [hlogins]
      exact h.login.logins_current
    · rw [hlogins]
      exact h.login.logins_length
    · rw [hlogins]
      exact h.login.logins_nil
    · exact h.login.inHandshake
    · rw [hlogins]
      exact h.login.gotAddress
  · constructor
    · rw [htimeouts]
      exact h.timeout.timeouts_current
    · exact h.timeout.timedOut
    · exact h.timeout.deadline

/-- The receive thread goes back to where it is harmless. -/
theorem AttemptInv.receiveIdle (h : s.AttemptInv) {t : ReceiveThread}
    (ht : ¬ LoginUnderWay t) : { s with receiveThread := t }.AttemptInv where
  login := {
    handshake := h.login.handshake
    tcp_open := h.login.tcp_open
    logins_current := h.login.logins_current
    logins_length := h.login.logins_length
    logins_nil := h.login.logins_nil
    inHandshake := fun q ip hq => by
      have hthread : t = .inHandshake q ip := hq
      exact absurd (by rw [hthread]; trivial) ht
    gotAddress := fun q ip hq => by
      have hthread : t = .gotAddress q ip := hq
      exact absurd (by rw [hthread]; trivial) ht }
  timeout := ⟨h.timeout.timeouts_current, h.timeout.timedOut, h.timeout.deadline⟩

/-- A reply of the server gives the query its address. -/
theorem AttemptInv.receiveReply (h : s.AttemptInv) (i : Nat) (publicAddr : IpAddress) :
    (s.receiveReply i publicAddr).AttemptInv := by
  unfold ClientSession.receiveReply
  split
  next =>
    split
    next => exact h.receiveIdle id
    next => exact h
  next => exact h

/-- The query takes what it has got, in the handshake of its own attempt. -/
theorem AttemptInv.handleQuery (h : s.AttemptInv) (hgood : s.Timely .handleQuery) :
    s.handleQuery.AttemptInv := by
  unfold ClientSession.handleQuery
  split
  next => exact h
  next q ip hthread =>
    simp only [Timely, hthread] at hgood
    split
    next hstate =>
      refine ⟨?_, h.timeout.timeouts_current, h.timeout.timedOut, h.timeout.deadline⟩
      refine ⟨h.login.handshake, h.login.tcp_open, h.login.logins_current, h.login.logins_length,
        h.login.logins_nil, fun q' ip' hq => ?_, nofun⟩
      injection hq with hq
      rw [← hq]
      exact ⟨hgood hstate, fun _ => hstate⟩
    next => exact h.receiveIdle id
  next q ip hthread =>
    split
    next => exact h.receiveIdle id
    next hgot =>
      have hfalse := Bool.eq_false_iff.mpr hgot
      obtain ⟨hattempt, hstate⟩ := h.login.inHandshake q ip hthread
      have hlogins := h.login.logins_nil hfalse
      refine ⟨?_, h.timeout.timeouts_current, h.timeout.timedOut, h.timeout.deadline⟩
      refine ⟨h.login.handshake, h.login.tcp_open, h.login.logins_current, h.login.logins_length,
        nofun, nofun, fun q' ip' hq => ?_⟩
      injection hq with hq
      rw [← hq]
      exact ⟨hattempt, hstate hfalse, rfl, hlogins⟩
  next q ip hthread =>
    obtain ⟨hattempt, hstate, hgot, hlogins⟩ := h.login.gotAddress q ip hthread
    have hqueue : logins (s.commands ++ [.login ip q.attempt]) = [q.attempt] := by
      rw [logins, List.filterMap_append]
      exact congrArg (· ++ [q.attempt]) hlogins
    have htimeouts : timeouts (s.commands ++ [.login ip q.attempt]) = timeouts s.commands := by
      rw [timeouts, List.filterMap_append]
      exact List.append_nil _
    refine ⟨⟨h.login.handshake, h.login.tcp_open, ?_, ?_, ?_, nofun, nofun⟩, ?_, h.timeout.timedOut,
      h.timeout.deadline⟩
    · rw [hqueue]
      intro a ha
      rw [List.mem_singleton.mp ha]
      exact ⟨hattempt, hstate⟩
    · rw [hqueue]
      exact Nat.le_refl 1
    · intro hfalse
      exact absurd (hgot.symm.trans hfalse) nofun
    · rw [htimeouts]
      exact h.timeout.timeouts_current

/-- The send thread does not matter for logins. -/
theorem LoginInv.frame (h : s.LoginInv) (hs : s.SameConnection s')
    (hcommands : logins s'.commands = logins s.commands)
    (hgot : s'.udp.gotAddress = s.udp.gotAddress) (hthread : s'.receiveThread = s.receiveThread) :
    s'.LoginInv := by
  obtain ⟨hclient, hconnection, htcp, -, hattempts, -, -⟩ := hs
  constructor
  · rw [hclient, hconnection, hattempts]
    exact h.handshake
  · rw [TcpInv, hclient, htcp]
    exact h.tcp_open
  · rw [hcommands, hclient, hattempts]
    exact h.logins_current
  · rw [hcommands]
    exact h.logins_length
  · rw [hcommands, hgot]
    exact h.logins_nil
  · rw [hthread, hattempts, hgot, hclient]
    exact h.inHandshake
  · rw [hthread, hattempts, hgot, hclient, hcommands]
    exact h.gotAddress

/-- The receive thread looks at the state of the client. -/
theorem AttemptInv.update (h : s.AttemptInv) (now : ℚ) : (s.update now).AttemptInv := by
  unfold ClientSession.update
  split
  next hidle =>
    split
    next =>
      have hdeadline := h.timeout.deadline_or (by rw [hidle]; exact nofun)
      exact ⟨h.login.frame (by constructor <;> rfl) rfl rfl rfl, h.timeout.timeouts_current, nofun,
        hdeadline.imp_right .inl⟩
    next =>
      split
      next =>
        exact ⟨h.login.frame (by constructor <;> rfl) rfl rfl rfl, h.timeout.timeouts_current,
          h.timeout.timedOut, h.timeout.deadline⟩
      next => exact h
    next => exact h
  next => exact h

/-- A deadline of this attempt sets its timeout. -/
theorem AttemptInv.checkDeadline (h : s.AttemptInv)
    (hdeadline : s.udp.deadlineAttempt = s.attempts) (now : ℚ) :
    (s.checkDeadline now).AttemptInv := by
  unfold ClientSession.checkDeadline
  split
  next =>
    refine ⟨h.login.frame (by constructor <;> rfl) rfl rfl rfl, h.timeout.timeouts_current, ?_,
      .inr (.inl hdeadline)⟩
    intro a ha
    injection ha with ha
    exact ha.symm.trans hdeadline
  next =>
    exact ⟨h.login.frame (by constructor <;> rfl) rfl rfl rfl, h.timeout.timeouts_current, nofun,
      .inr (.inl hdeadline)⟩

/-- Until then the query asks again. -/
theorem AttemptInv.continueUpdate (h : s.AttemptInv) : s.continueUpdate.AttemptInv := by
  unfold ClientSession.continueUpdate
  split
  next => exact h
  next now hthread =>
    split
    next =>
      exact ⟨h.login.frame (by constructor <;> rfl) rfl rfl rfl, h.timeout.timeouts_current, nofun,
        .inr (.inr ⟨now, rfl⟩)⟩
    next hstart =>
      have hdeadline := h.timeout.deadline_or (by rw [hthread]; exact nofun)
      exact h.checkDeadline (hdeadline.resolve_left hstart) now
  next now hthread =>
    have hset : (s.setDeadline now).AttemptInv :=
      ⟨h.login.frame (by constructor <;> rfl) rfl rfl rfl, h.timeout.timeouts_current,
        h.timeout.timedOut, .inr (.inl rfl)⟩
    exact hset.checkDeadline rfl now
  next attempt hthread =>
    have hattempt := h.timeout.timedOut attempt hthread
    have hlogins : logins (s.commands ++ [.timeout attempt]) = logins s.commands := by
      rw [logins, List.filterMap_append]
      exact List.append_nil _
    refine ⟨h.login.frame (by constructor <;> rfl) hlogins rfl rfl, ?_, nofun, ?_⟩
    · intro a ha
      rw [timeouts, List.filterMap_append] at ha
      rcases List.mem_append.mp ha with ha | ha
      · exact h.timeout.timeouts_current a ha
      · exact (List.mem_singleton.mp ha).trans hattempt
    · exact (h.timeout.deadline_or (by rw [hthread]; exact nofun)).imp_right .inl
  next now hthread =>
    have hdeadline := h.timeout.deadline_or (by rw [hthread]; exact nofun)
    split
    next =>
      exact ⟨h.login.frame (by constructor <;> rfl) rfl rfl rfl, h.timeout.timeouts_current, nofun,
        hdeadline.imp_right .inl⟩
    next =>
      exact ⟨h.login.frame (by constructor <;> rfl) rfl rfl rfl, h.timeout.timeouts_current, nofun,
        hdeadline.imp_right .inl⟩

/-! ## Runs -/

/-- Every step in time keeps the invariant, in any order of the threads. -/
theorem AttemptInv.step (h : s.AttemptInv) (T : AddressText) (localIpv4 : IpAddress) {a : Action}
    (hgood : s.Timely a) : (s.step T localIpv4 a).AttemptInv := by
  unfold ClientSession.step
  split
  next => exact h
  next =>
    cases a with
    | push cmd => exact h.push cmd
    | perform o => exact h.perform hgood
    | receiveData e => exact h.kept (receiveData_kept h.login.tcp_open T localIpv4 e)
    | pingServer responding sent =>
      exact h.kept (pingServer_kept h.login.tcp_open responding sent)
    | stop => exact h.stop hgood
    | receiveReply i publicAddr => exact h.receiveReply i publicAddr
    | handleQuery => exact h.handleQuery hgood
    | update now => exact h.update now
    | continueUpdate => exact h.continueUpdate

/-- Whatever is in the queue acts on its own attempt. -/
theorem AttemptInv.inTime (h : s.AttemptInv) {cmd : QueuedCommand} (hcmd : cmd ∈ s.commands) :
    s.InTime cmd := by
  cases cmd with
  | user cmd => trivial
  | login ip attempt =>
    have hmem : attempt ∈ logins s.commands := List.mem_filterMap.mpr ⟨_, hcmd, rfl⟩
    obtain ⟨hattempt, hstate⟩ := h.login.logins_current attempt hmem
    obtain ⟨c, hconnection, hc⟩ := h.login.handshake hstate
    exact ⟨c, hconnection, hstate, hc.trans hattempt.symm⟩
  | timeout attempt =>
    have hmem : attempt ∈ timeouts s.commands := List.mem_filterMap.mpr ⟨_, hcmd, rfl⟩
    intro c hconnection hstate
    obtain ⟨c', hconnection', hc⟩ := h.login.handshake hstate
    have heq : c = c' := Option.some.inj (hconnection.symm.trans hconnection')
    rw [heq, hc, h.timeout.timeouts_current attempt hmem]

/-- **Handshake commands act on their own attempt**: in every run whose steps are all `Timely`, when
a login is performed there is a connection, and the client is in the handshake of the attempt
whose query was replied to; and a timeout closes only the attempt whose deadline has passed. -/
theorem commands_inTime (T : AddressText) (localIpv4 : IpAddress) (as : List Action)
    (hgood : Lib.StepsAll (step T localIpv4) Timely {} as) :
    ∀ bs o, bs ++ [.perform o] <+: as →
      ∀ cmd, (bs.foldl (step T localIpv4) {}).commands.head? = some cmd →
        (bs.foldl (step T localIpv4) {}).InTime cmd := by
  intro bs o hbs cmd hcmd
  have hprefix : bs <+: as := (List.prefix_append bs _).trans hbs
  have hinv := hgood.invariant (I := AttemptInv)
    (fun s a h hgood => h.step T localIpv4 hgood) ⟨loginInv_start, timeoutInv_start⟩ bs hprefix
  exact hinv.inTime (List.mem_of_mem_head? hcmd)

/-- A client begins to connect to a server at port 7078 and sends a query. -/
def queried : List Action :=
  [.push (.connect 0), .perform { resolved := some ⟨[192, 168, 0, 2], 7078⟩ }, .update 0,
    .continueUpdate, .continueUpdate, .continueUpdate]

/-- The reply to the query arrives. -/
def replied : List Action :=
  [.receiveReply 0 ⟨[203, 0, 113, 7], 50000⟩, .handleQuery, .handleQuery, .handleQuery]

/-- The deadline has passed. -/
def timedOut : List Action := [.update 10, .continueUpdate, .continueUpdate]

/-- The query is replied to in time, and the login is performed in the handshake. -/
theorem login_in_handshake :
    let s := (queried ++ replied).foldl (step sampleText .clear) {}
    s.commands.head? = some (.login ⟨[203, 0, 113, 7], 50000⟩ 1) ∧
      s.InTime (.login ⟨[203, 0, 113, 7], 50000⟩ 1) := by
  intro s
  have hcommands : s.commands.head? = some (.login ⟨[203, 0, 113, 7], 50000⟩ 1) := by
    decide +kernel
  refine ⟨hcommands, ?_⟩
  refine commands_inTime sampleText .clear (queried ++ replied ++ [.perform {}]) ?_
    (queried ++ replied) {} (List.prefix_refl _) _ hcommands
  decide +kernel

/-- The reply arrives after the deadline, and the timeout is performed. -/
def lateReply : List Action := queried ++ timedOut ++ replied ++ [.perform {}]

/-- The user connects again between two timeouts, and the first timeout and the connect are
performed. -/
def reconnected : List Action :=
  queried ++ timedOut ++ [.push (.connect 0)] ++ timedOut ++
    [.perform {}, .perform { resolved := some ⟨[192, 168, 0, 2], 7078⟩ }]

/-- The login of a late reply is performed without a connection, and a second timeout closes an
attempt that it was not made for. -/
theorem stale_commands :
    (lateReply.foldl (step sampleText .clear) {}).commands.head? =
      some (.login ⟨[203, 0, 113, 7], 50000⟩ 1) ∧
    (lateReply.foldl (step sampleText .clear) {}).connection = none ∧
    ((lateReply ++ [Action.perform {}]).foldl (step sampleText .clear) {}).crashed = true ∧
    (reconnected.foldl (step sampleText .clear) {}).commands.head? = some (.timeout 1) ∧
    (reconnected.foldl (step sampleText .clear) {}).connection = some ⟨1, 2⟩ ∧
    ((reconnected ++ [Action.perform {}]).foldl (step sampleText .clear) {}).connection = none := by
  decide +kernel

end ClientSession

end Aoo.Net
