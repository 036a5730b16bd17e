import Aoo.Net.Commands

/-!
# Responses to commands

A command of the user that is not refused waits for its response: a connect in `connection_`, a
request in `pending_requests_`. `Client::close` empties both and calls no response handler. So
a handler is lost whenever the connection is closed before the reply is there, and only
the paths that reply before they close (a timeout, a failed login) are without fault. A second reply
to a login calls the handler of the connect again.

`outstanding` are the handlers that are to be called. Together with those that were called they are
the commands that were performed, as long as the connection is only closed when nothing
waits (`Answerable`).

Main result: `responses_once`.
-/

namespace Aoo.Net

open Lib

/-! ## Handlers that wait -/

namespace ClientSession

/-- The response handlers that are to be called: of the connect that is in progress, and of the
pending requests. -/
def outstanding (s : ClientSession) : List Nat :=
  (match s.client.state with
    | .handshake | .connecting => s.connection.toList.map Connection.handler
    | _ => []) ++ s.handlers.map Prod.snd

/-- Every command that was performed has called its handler, or waits. In addition there may
be handlers `inHand` of a command that is just performed. -/
structure Inv (s : ClientSession) (inHand : List Nat) : Prop where
  calls_perm : (s.calls ++ (s.outstanding ++ inHand)).Perm (List.range s.performed)
  groups_nil : s.client.state ≠ .connected → s.client.groups = []
  handlers_nil : s.client.state ≠ .connected → s.handlers = []
  tokens_eq : s.handlers.map Prod.fst = s.client.pendingRequests.map Prod.fst
  connection_isSome : s.connection.isSome = true ↔ s.client.state ≠ .disconnected
  tcp_open : s.TcpInv

variable {s : ClientSession} {inHand : List Nat} {handler : Nat}

/-- A new client has nothing to answer. -/
theorem inv_start : Inv {} [] where
  calls_perm := List.Perm.nil
  groups_nil _ := rfl
  handlers_nil _ := rfl
  tokens_eq := rfl
  connection_isSome := iff_of_false nofun fun h => h rfl
  tcp_open := nofun

/-- Nothing waits after the connection was closed. -/
theorem inv_close (h : (s.calls ++ inHand).Perm (List.range s.performed)) :
    s.close.Inv inHand where
  calls_perm := h
  groups_nil _ := rfl
  handlers_nil _ := rfl
  tokens_eq := rfl
  connection_isSome := iff_of_false nofun fun h => h rfl
  tcp_open := nofun

/-- Nothing is to be replied to: no attempt is in progress, and no request is pending. -/
def Settled (s : ClientSession) : Prop :=
  s.client.state ≠ .handshake ∧ s.client.state ≠ .connecting ∧ s.client.pendingRequests = []

/-- Without pending requests no handler is left. -/
theorem Inv.handlers_eq_nil (h : s.Inv inHand) (hpending : s.client.pendingRequests = []) :
    s.handlers = [] := by
  have htokens := h.tokens_eq
  rw [hpending] at htokens
  exact List.map_eq_nil_iff.mp htokens

/-- A settled client waits for nothing. -/
theorem Inv.outstanding_settled (h : s.Inv inHand) (hsettled : s.Settled) :
    s.outstanding = [] := by
  obtain ⟨hhandshake, hconnecting, hpending⟩ := hsettled
  rw [outstanding, h.handlers_eq_nil hpending]
  cases hstate : s.client.state with
  | disconnected => rfl
  | handshake => exact absurd hstate hhandshake
  | connecting => exact absurd hstate hconnecting
  | connected => rfl

/-- A settled client can close without an answer. -/
theorem Inv.close (h : s.Inv inHand) (hsettled : s.Settled) : s.close.Inv inHand := by
  have hperm := h.calls_perm
  rw [h.outstanding_settled hsettled] at hperm
  exact inv_close hperm

/-- While an attempt is in progress, only the connect waits. -/
theorem Inv.outstanding_attempt (h : s.Inv inHand)
    (hstate : s.client.state = .handshake ∨ s.client.state = .connecting) {c : Connection}
    (hconnection : s.connection = some c) : s.outstanding = [c.handler] := by
  rcases hstate with hstate | hstate
  · rw [outstanding, hstate, h.handlers_nil (by rw [hstate]; decide), hconnection]
    rfl
  · rw [outstanding, hstate, h.handlers_nil (by rw [hstate]; decide), hconnection]
    rfl

/-- The attempt fails: the connect is replied to, and the connection is closed. -/
theorem Inv.fail (h : s.Inv [])
    (hstate : s.client.state = .handshake ∨ s.client.state = .connecting) {c : Connection}
    (hconnection : s.connection = some c) : (s.reply c.handler).close.Inv [] := by
  have hperm := h.calls_perm
  rw [h.outstanding_attempt hstate hconnection] at hperm
  refine inv_close ?_
  show (s.calls ++ [c.handler] ++ []).Perm (List.range s.performed)
  rw [List.append_assoc]
  exact hperm

/-- The handler of the command is called, once. -/
theorem Inv.reply (h : s.Inv [handler]) : (s.reply handler).Inv [] where
  calls_perm := by
    show (s.calls ++ [handler] ++ (s.outstanding ++ [])).Perm (List.range s.performed)
    rw [List.append_nil, List.append_assoc]
    exact (List.perm_append_comm.append_left _).trans h.calls_perm
  groups_nil := h.groups_nil
  handlers_nil := h.handlers_nil
  tokens_eq := h.tokens_eq
  connection_isSome := h.connection_isSome
  tcp_open := h.tcp_open

/-- The queue and the other threads do not matter. -/
theorem Inv.frame {s' : ClientSession} (h : s.Inv inHand) (hs : s.SameConnection s') :
    s'.Inv inHand := by
  obtain ⟨hclient, hconnection, htcp, hhandlers, -, hperformed, hcalls⟩ := hs
  have houtstanding : s'.outstanding = s.outstanding := by
    rw [outstanding, outstanding, hclient, hconnection, hhandlers]
  constructor
  · rw [hcalls, hperformed, houtstanding]
    exact h.calls_perm
  · rw [hclient]
    exact h.groups_nil
  · rw [hclient, hhandlers]
    exact h.handlers_nil
  · rw [hclient, hhandlers]
    exact h.tokens_eq
  · rw [hclient, hconnection]
    exact h.connection_isSome
  · rw [TcpInv, hclient, htcp]
    exact h.tcp_open

/-! ## Commands -/

/-- A command of the user is taken from the queue. -/
theorem Inv.take (h : s.Inv []) :
    { s with performed := s.performed + 1 }.Inv [s.performed] where
  calls_perm := by
    show (s.calls ++ (s.outstanding ++ [s.performed])).Perm (List.range (s.performed + 1))
    have hperm := h.calls_perm
    rw [List.append_nil] at hperm
    rw [List.range_succ, ← List.append_assoc]
    exact hperm.append_right _
  groups_nil := h.groups_nil
  handlers_nil := h.handlers_nil
  tokens_eq := h.tokens_eq
  connection_isSome := h.connection_isSome
  tcp_open := h.tcp_open

/-- The connect waits for the server. -/
theorem Inv.beginAttempt (h : s.Inv [handler]) (hstate : s.client.state = .disconnected)
    (timeout : ℚ) (remote : IpAddress) : (s.beginAttempt handler timeout remote).Inv [] where
  calls_perm := by
    have hhandlers := h.handlers_nil (by rw [hstate]; decide)
    have hperm := h.calls_perm
    rw [outstanding, hstate, hhandlers] at hperm
    show (s.calls ++ ([handler] ++ s.handlers.map Prod.snd ++ [])).Perm (List.range s.performed)
    rw [hhandlers]
    exact hperm
  groups_nil _ := h.groups_nil (by rw [hstate]; decide)
  handlers_nil _ := h.handlers_nil (by rw [hstate]; decide)
  tokens_eq := h.tokens_eq
  connection_isSome := iff_of_true rfl nofun
  tcp_open := h.tcp_open.beginAttempt hstate handler timeout remote

/-- `connect` answers at once, or keeps its handler for the login. -/
theorem Inv.performConnect (h : s.Inv [handler]) (timeout : ℚ) (o : Outcome) :
    (s.performConnect handler timeout o).Inv [] := by
  unfold ClientSession.performConnect
  split
  next => exact h.reply
  next hstate =>
    split
    next => exact h.reply
    next remote _ => exact h.beginAttempt (not_not.mp hstate) timeout remote

/-- `disconnect` answers at once. -/
theorem Inv.performDisconnect (h : s.Inv [handler]) (hpending : s.client.pendingRequests = []) :
    (s.performDisconnect handler).Inv [] := by
  unfold ClientSession.performDisconnect
  split
  next => exact h.reply
  next hstate =>
    have hconnected := not_not.mp hstate
    refine Inv.reply (h.close ⟨?_, ?_, hpending⟩)
    · rw [hconnected]
      decide
    · rw [hconnected]
      decide

/-- The groups that a client is in are those of a connection. -/
theorem Inv.connected_of_permits (h : s.Inv inHand) {cmd : Command}
    (hpermits : s.client.permits cmd = true) : s.client.state = .connected := by
  by_contra hstate
  have hgroups := h.groups_nil hstate
  cases cmd <;>
    simp [Client.permits, Client.findGroupMembership, Keyed.lookup, hgroups, hstate] at hpermits

/-- The request waits for its reply. -/
theorem Inv.pend (h : s.Inv [handler]) (hstate : s.client.state = .connected) (cmd : Command) :
    (s.pend handler cmd).Inv [] where
  calls_perm := by
    have hperm := h.calls_perm
    rw [outstanding, hstate] at hperm
    have hout : (s.pend handler cmd).outstanding = s.handlers.map Prod.snd ++ [handler] := by
      show (match s.client.state with
        | .handshake | .connecting => s.connection.toList.map Connection.handler
        | _ => []) ++ (s.handlers ++ [(s.client.nextToken, handler)]).map Prod.snd = _
      rw [hstate, List.map_append]
      rfl
    rw [hout, List.append_nil]
    exact hperm
  groups_nil hne := absurd hstate hne
  handlers_nil hne := absurd hstate hne
  tokens_eq := by
    show (s.handlers ++ [(s.client.nextToken, handler)]).map Prod.fst =
      (s.client.pendingRequests ++ [(s.client.nextToken, cmd)]).map Prod.fst
    rw [List.map_append, List.map_append, h.tokens_eq]
    rfl
  connection_isSome := h.connection_isSome
  tcp_open := h.tcp_open

/-- A request that is sent has its handler pending. -/
theorem Inv.performRequest (h : s.Inv [handler]) {cmd : Command} {o : Outcome}
    (hsent : s.client.permits cmd = true → o.sent = true) :
    (s.performRequest handler cmd o).Inv [] := by
  unfold ClientSession.performRequest
  split
  next hpermits =>
    have hpend := h.pend (h.connected_of_permits hpermits) cmd
    unfold sendServerMessage
    rw [if_neg (by simp [hsent hpermits])]
    exact hpend
  next => exact h.reply

/-- A timeout answers the connection attempt. -/
theorem Inv.performTimeout (h : s.Inv []) : s.performTimeout.Inv [] := by
  unfold ClientSession.performTimeout
  split
  next => exact h
  next c hconnection =>
    split
    next hstate => exact h.fail (.inl hstate) hconnection
    next => exact h

/-- An attempt is neither open nor closed. -/
theorem ne_of_attempt {state : ClientState} (h : state = .handshake ∨ state = .connecting) :
    state ≠ .disconnected ∧ state ≠ .connected := by
  rcases h with rfl | rfl <;> decide

/-- The login is sent on a new TCP connection. -/
theorem Inv.beginLogin (h : s.Inv [])
    (hstate : s.client.state = .handshake ∨ s.client.state = .connecting) :
    ((s.setState .connecting).openTcp).Inv [] where
  calls_perm := by
    obtain ⟨c, hconnection⟩ := Option.isSome_iff_exists.mp
      (h.connection_isSome.mpr (ne_of_attempt hstate).1)
    have hhandlers := h.handlers_nil (ne_of_attempt hstate).2
    have hperm := h.calls_perm
    rw [h.outstanding_attempt hstate hconnection] at hperm
    show (s.calls ++ (s.connection.toList.map Connection.handler ++ s.handlers.map Prod.snd ++ []))
      |>.Perm (List.range s.performed)
    rw [hconnection, hhandlers]
    exact hperm
  groups_nil _ := h.groups_nil (ne_of_attempt hstate).2
  handlers_nil _ := h.handlers_nil (ne_of_attempt hstate).2
  tokens_eq := h.tokens_eq
  connection_isSome := iff_of_true (h.connection_isSome.mpr (ne_of_attempt hstate).1) nofun
  tcp_open _ := .inl rfl

/-- The login is under way, or its failure answers the attempt. -/
theorem Inv.performLogin (h : s.Inv []) {o : Outcome} (hstate : s.client.state ≠ .connected)
    (hsent : o.connected = true → o.sent = true) : (s.performLogin o).Inv [] := by
  unfold ClientSession.performLogin
  split
  next => exact h.frame (by constructor <;> rfl)
  next c hconnection =>
    have hattempt : s.client.state = .handshake ∨ s.client.state = .connecting := by
      have hne := h.connection_isSome.mp (by rw [hconnection]; rfl)
      cases hs : s.client.state with
      | disconnected => exact absurd hs hne
      | handshake => exact .inl rfl
      | connecting => exact .inr rfl
      | connected => exact absurd hs hstate
    split
    next hconnected =>
      unfold sendServerMessage
      rw [if_neg (by simp [hsent hconnected])]
      exact h.beginLogin hattempt
    next =>
      -- Closing does not look at the state that was set before.
      have hfail := h.fail hattempt hconnection
      exact inv_close hfail.calls_perm

/-! ## Messages -/

/-- A login response answers the attempt. -/
theorem Inv.handleLogin (h : s.Inv []) (hstate : s.client.state = .connecting)
    (version : String) : (s.handleLogin version).Inv [] := by
  unfold ClientSession.handleLogin
  split
  next => exact h
  next c hconnection =>
    split
    next =>
      have hhandlers := h.handlers_nil (by rw [hstate]; decide)
      have hperm := h.calls_perm
      rw [h.outstanding_attempt (.inr hstate) hconnection] at hperm
      refine ⟨?_, nofun, nofun, h.tokens_eq, ?_, fun _ => .inr rfl⟩
      · show (s.calls ++ [c.handler] ++ (s.handlers.map Prod.snd ++ [])).Perm
          (List.range s.performed)
        rw [hhandlers, List.append_assoc]
        exact hperm
      · exact iff_of_true (by rw [← Option.isSome_iff_exists.mpr ⟨c, hconnection⟩]; rfl) nofun
    next => exact h.fail (.inr hstate) hconnection

/-- So does an error. -/
theorem Inv.handleLoginError (h : s.Inv []) (hstate : s.client.state = .connecting) :
    s.handleLoginError.Inv [] := by
  unfold ClientSession.handleLoginError
  split
  next => exact h
  next c hconnection => exact h.fail (.inr hstate) hconnection

/-- A response answers the request with its token. -/
theorem Inv.respond (h : s.Inv []) {token : Int} {cmd : Command} {m : ClientMessage}
    (hcmd : s.pending token = some cmd) (hanswer : cmd.Answer token m) :
    (s.respond token m).Inv [] := by
  unfold ClientSession.respond
  split
  next => exact h
  next token' handler hlookup =>
    have hstate : s.client.state = .connected := by
      by_contra hne
      rw [h.handlers_nil hne] at hlookup
      exact absurd hlookup nofun
    obtain ⟨⟨token'', cmd'⟩, hrequest, rfl⟩ := Option.map_eq_some_iff.mp hcmd
    obtain ⟨hstate', hpending, -⟩ := Client.respond_answer hrequest hanswer
    have hconnected := hstate'.trans hstate
    refine ⟨?_, fun hne => absurd hconnected hne, fun hne => absurd hconnected hne, ?_, ?_,
      fun _ => .inr hconnected⟩
    · have hperm := h.calls_perm
      rw [outstanding, hstate] at hperm
      have hremove := (Keyed.perm_remove hlookup).map Prod.snd
      rw [outstanding]
      show (s.calls ++ [handler] ++ ((match (s.client.respond token m).state with
        | .handshake | .connecting => s.connection.toList.map Connection.handler
        | _ => []) ++ (Keyed.remove Prod.fst token s.handlers).map Prod.snd ++ [])).Perm
          (List.range s.performed)
      rw [hconnected, List.append_assoc, List.append_nil]
      rw [List.append_nil] at hperm
      exact (hremove.append_left s.calls).trans hperm
    · show (Keyed.remove Prod.fst token s.handlers).map Prod.fst =
        (s.client.respond token m).pendingRequests.map Prod.fst
      rw [hpending, Keyed.map_remove, Keyed.map_remove, h.tokens_eq]
    · show s.connection.isSome = true ↔ (s.client.respond token m).state ≠ .disconnected
      rw [hstate']
      exact h.connection_isSome

/-- Messages that are neither replies nor logins. -/
theorem Inv.other (h : s.Inv []) {m : ClientMessage} (hreply : m.reply? = none)
    (hlogin : m.pattern ≠ .login) :
    { s with client := s.client.handleServerMessage m }.Inv [] := by
  obtain ⟨hstate, hpending, -, hgroups⟩ := s.client.handleServerMessage_other hreply hlogin
  refine ⟨?_, fun hne => hgroups (h.groups_nil (hstate ▸ hne)),
    fun hne => h.handlers_nil (hstate ▸ hne), ?_, ?_, ?_⟩
  · have hperm := h.calls_perm
    rw [outstanding] at hperm ⊢
    show (s.calls ++ ((match (s.client.handleServerMessage m).state with
      | .handshake | .connecting => s.connection.toList.map Connection.handler
      | _ => []) ++ s.handlers.map Prod.snd ++ [])).Perm (List.range s.performed)
    rw [hstate]
    exact hperm
  · show s.handlers.map Prod.fst = (s.client.handleServerMessage m).pendingRequests.map Prod.fst
    rw [hpending]
    exact h.tokens_eq
  · show s.connection.isSome = true ↔ (s.client.handleServerMessage m).state ≠ .disconnected
    rw [hstate]
    exact h.connection_isSome
  · show s.tcpOpen = true → (s.client.handleServerMessage m).state = .connecting ∨
      (s.client.handleServerMessage m).state = .connected
    rw [hstate]
    exact h.tcp_open

/-- Each message answers at most one request, which was pending. -/
theorem Inv.handleMessage (h : s.Inv []) {m : ClientMessage}
    (hlogin : m.pattern = .login → s.client.state = .connecting)
    (hanswer : ∀ type token, m.reply? = some (type, token) →
      ∃ cmd, s.pending token = some cmd ∧ cmd.Answer token m) : (s.handleMessage m).Inv [] := by
  rcases s.handleMessage_cases m with ⟨hpattern, version, heq⟩ | ⟨hpattern, heq⟩ |
    ⟨type, token, hreply, heq⟩ | ⟨hreply, hother, heq⟩
  · rw [heq]
    exact h.handleLogin (hlogin hpattern) version
  · rw [heq]
    exact h.handleLoginError (hlogin hpattern)
  · obtain ⟨cmd, hcmd, hmatch⟩ := hanswer type token hreply
    rw [heq]
    exact h.respond hcmd hmatch
  · rw [heq]
    exact h.other hreply hother

/-! ## Runs -/

/-- What may arrive on the TCP connection: its end and messages that cannot be read only if nothing
waits, and replies to a login only while it waits. -/
def Acceptable (T : AddressText) (localIpv4 : IpAddress) (s : ClientSession) : TcpEvent → Prop
  | .message m =>
    match receive T localIpv4 s.pending m with
    | .ok (some (.message m)) => m.pattern = .login → s.client.state = .connecting
    | .ok _ => True
    | .error _ => s.Settled
  | .malformed | .lost => s.Settled

/-- The steps after which every handler was called or is still to be called. The connection is only
closed when nothing waits, unless the connect was replied to just before, and a
login is only replied to while it waits. -/
def Answerable (T : AddressText) (localIpv4 : IpAddress) (s : ClientSession) : Action → Prop
  | .perform o =>
    match s.commands with
    | .user .disconnect :: _ => s.client.pendingRequests = []
    | .user (.request cmd) :: _ => s.client.permits cmd = true → o.sent = true
    | .login _ _ :: _ => s.client.state ≠ .connected ∧ (o.connected = true → o.sent = true)
    | _ => True
  | .receiveData e => s.tcpOpen = true → s.Acceptable T localIpv4 e
  | .pingServer responding sent =>
    (responding = true ∧ sent = true) ∨ s.client.pendingRequests = []
  | .stop => s.Settled
  | _ => True

variable {T : AddressText} {localIpv4 : IpAddress}

instance : Decidable s.Settled := inferInstanceAs (Decidable (_ ∧ _ ∧ _))

instance decidableAcceptable : ∀ e, Decidable (s.Acceptable T localIpv4 e)
  | .message m =>
    match h : receive T localIpv4 s.pending m with
    | .ok (some (.message m')) =>
      decidable_of_iff (m'.pattern = .login → s.client.state = .connecting)
        (by simp [Acceptable, h])
    | .ok (some (.notification _)) | .ok (some .ping) | .ok none =>
      .isTrue (by simp [Acceptable, h])
    | .error _ => decidable_of_iff s.Settled (by simp [Acceptable, h])
  | .malformed | .lost => inferInstanceAs (Decidable s.Settled)

instance decidableAnswerable : ∀ a, Decidable (s.Answerable T localIpv4 a)
  | .perform o =>
    match h : s.commands with
    | .user .disconnect :: _ =>
      decidable_of_iff (s.client.pendingRequests = []) (by simp [Answerable, h])
    | .user (.request cmd) :: _ =>
      decidable_of_iff (s.client.permits cmd = true → o.sent = true) (by simp [Answerable, h])
    | .login _ _ :: _ =>
      decidable_of_iff (s.client.state ≠ .connected ∧ (o.connected = true → o.sent = true))
        (by simp [Answerable, h])
    | .user (.connect _) :: _ | .timeout _ :: _ | [] => .isTrue (by simp [Answerable, h])
  | .receiveData e =>
    inferInstanceAs (Decidable (s.tcpOpen = true → s.Acceptable T localIpv4 e))
  | .pingServer responding sent =>
    inferInstanceAs
      (Decidable ((responding = true ∧ sent = true) ∨ s.client.pendingRequests = []))
  | .stop => inferInstanceAs (Decidable s.Settled)
  | .push _ | .receiveReply _ _ | .handleQuery | .update _ | .continueUpdate => .isTrue trivial

/-- Commands keep the account of handlers. -/
theorem Inv.perform (h : s.Inv []) {o : Outcome} (hgood : s.Answerable T localIpv4 (.perform o)) :
    (s.perform o).Inv [] := by
  unfold Answerable at hgood
  unfold ClientSession.perform
  cases hcommands : s.commands with
  | nil => exact h
  | cons cmd cmds =>
    rw [hcommands] at hgood
    have hpop : { s with commands := cmds }.Inv [] := h.frame (by constructor <;> rfl)
    cases cmd with
    | user cmd =>
      have htake := hpop.take
      cases cmd with
      | connect timeout => exact htake.performConnect timeout o
      | disconnect => exact htake.performDisconnect hgood
      | request cmd => exact htake.performRequest hgood
    | login publicIp attempt => exact hpop.performLogin hgood.1 hgood.2
    | timeout attempt => exact hpop.performTimeout

/-- Messages of the server keep it if they can be understood. -/
theorem Inv.handleServerMessage (h : s.Inv []) {m : OscMessage}
    (haccept : s.Acceptable T localIpv4 (.message m)) :
    (s.handleServerMessage T localIpv4 m).Inv [] := by
  cases hread : receive T localIpv4 s.pending m with
  | error e =>
    simp only [Acceptable, hread] at haccept
    rw [ClientSession.handleServerMessage, hread]
    exact h.close haccept
  | ok r =>
    simp only [Acceptable, hread] at haccept
    rw [ClientSession.handleServerMessage, hread]
    cases r with
    | none => exact h
    | some tcp =>
      cases tcp with
      | message m => exact h.handleMessage haccept fun _ _ hreply => receive_answer hread hreply
      | notification data => exact h
      | ping => exact h

/-- So does everything that comes over TCP. -/
theorem Inv.receiveData (h : s.Inv []) {e : TcpEvent}
    (hgood : s.tcpOpen = true → s.Acceptable T localIpv4 e) :
    (s.receiveData T localIpv4 e).Inv [] := by
  unfold ClientSession.receiveData
  split
  next htcp =>
    cases e with
    | message m => exact h.handleServerMessage (hgood htcp)
    | malformed => exact h.close (hgood htcp)
    | lost => exact h.close (hgood htcp)
  next => exact h

/-- So does a ping, unless it closes a client that waits. -/
theorem Inv.pingServer (h : s.Inv []) {responding sent : Bool}
    (hgood : s.Answerable T localIpv4 (.pingServer responding sent)) :
    (s.pingServer responding sent).Inv [] := by
  unfold ClientSession.pingServer
  split
  next hstate =>
    rcases hgood with ⟨rfl, rfl⟩ | hpending
    · rw [if_pos rfl, sendServerMessage, if_neg (by simp)]
      exact h
    · have hsettled : s.Settled := ⟨by rw [hstate]; decide, by rw [hstate]; decide, hpending⟩
      split
      next =>
        unfold sendServerMessage
        split
        next => exact h.close hsettled
        next => exact h
      next => exact h.close hsettled
  next => exact h

/-- Every answerable step keeps it. -/
theorem Inv.step (h : s.Inv []) {a : Action} (hgood : s.Answerable T localIpv4 a) :
    (s.step T localIpv4 a).Inv [] := by
  unfold ClientSession.step
  split
  next => exact h
  next =>
    cases a with
    | push cmd => exact h.frame (by constructor <;> rfl)
    | perform o => exact h.perform hgood
    | receiveData e => exact h.receiveData hgood
    | pingServer responding sent => exact h.pingServer hgood
    | stop => exact h.close hgood
    | receiveReply i publicAddr => exact h.frame (s.receiveReply_same i publicAddr)
    | handleQuery => exact h.frame s.handleQuery_same
    | update now => exact h.frame (s.update_same now)
    | continueUpdate => exact h.frame s.continueUpdate_same

/-- **Every command is answered once**: in every run whose steps are all `Answerable`, once the
client is disconnected, the response handler of each command that was performed has been called
exactly once. Tokens are unbounded here: an `AooId` has 32 bits, so that fewer than 2^31 requests
may be made. -/
theorem responses_once (T : AddressText) (localIpv4 : IpAddress) (as : List Action)
    (hgood : StepsAll (step T localIpv4) (Answerable T localIpv4) {} as) :
    ∀ bs, bs <+: as → (bs.foldl (step T localIpv4) {}).client.state = .disconnected →
      ∀ handler < (bs.foldl (step T localIpv4) {}).performed,
        (bs.foldl (step T localIpv4) {}).calls.count handler = 1 := by
  intro bs hbs hstate handler hlt
  have hinv := StepsAll.invariant (I := fun s => s.Inv []) (fun s a h hgood => h.step hgood)
    inv_start hgood bs hbs
  have hperm := hinv.calls_perm
  rw [outstanding, hstate, hinv.handlers_nil (by rw [hstate]; decide)] at hperm
  have hcount := hperm.count_eq handler
  rw [List.map_nil, List.append_nil, List.append_nil, List.append_nil,
    List.count_eq_one_of_mem List.nodup_range (List.mem_range.mpr hlt)] at hcount
  exact hcount

/-- A client connects to a server at port 7078 and logs in. -/
def loggedIn : List Action :=
  [.push (.connect 0), .perform { resolved := some ⟨[127, 0, 0, 1], 7078⟩ }, .update 0,
    .continueUpdate, .continueUpdate, .continueUpdate, .receiveReply 0 ⟨[127, 0, 0, 1], 50000⟩,
    .handleQuery, .handleQuery, .handleQuery, .perform { connected := true, sent := true },
    .receiveData (.message ((ClientMessage.login 0 "2.0" 1 none).osc sampleText))]

/-- The client sends a request. -/
def requested : List Action :=
  loggedIn ++ [.push (.request (.custom 0 ⟨1, [1]⟩)), .perform { sent := true }]

/-- The request is replied to before the client disconnects. -/
theorem reply_disconnect_once :
    let as := requested ++
      [.receiveData (.message ((ClientMessage.request 1 0 ⟨1, [2]⟩).osc sampleText)),
        .push .disconnect, .perform {}]
    (as.foldl (step sampleText .clear) {}).client.state = .disconnected ∧
    (as.foldl (step sampleText .clear) {}).performed = 3 ∧
    ∀ handler < (as.foldl (step sampleText .clear) {}).performed,
      (as.foldl (step sampleText .clear) {}).calls.count handler = 1 := by
  intro as
  have hstate : (as.foldl (step sampleText .clear) {}).client.state = .disconnected := by
    decide +kernel
  refine ⟨hstate, by decide +kernel, ?_⟩
  refine responses_once sampleText .clear as ?_ as (List.prefix_refl _) hstate
  decide +kernel

/-- The request is not replied to if the connection is lost. -/
theorem request_unanswered :
    let as := requested ++ [Action.receiveData .lost]
    (as.foldl (step sampleText .clear) {}).client.state = .disconnected ∧
    (as.foldl (step sampleText .clear) {}).performed = 2 ∧
    (as.foldl (step sampleText .clear) {}).calls.count 1 = 0 := by
  decide +kernel

end ClientSession

end Aoo.Net
