import Aoo.Net.Joining

/-!
# Clients and server

A server with its clients. Requests and messages travel on TCP connections: they arrive in order,
and each side reads them when it gets to it. The requests of a client are in `requests`, the
messages of the server in the `stream` of the client's endpoint.

A client that closes its connection, or whose endpoint is gone, may come back with a new
connection, which is a new `Conn` here. The messages that were on their way are lost then.

The lemmas of this module are about one client: what becomes of its lists and of its pending
requests when it reads messages (`Knows`).
-/

namespace Aoo.Net

open Lib

/-- A connection: the id that the server has given to the client, and the requests that are on
their way. -/
structure Conn where
  id : Int
  client : Client
  requests : List Server.ServerMessage := []
  deriving DecidableEq, Repr

/-- The server, the connections, and the requests that the request handler has taken over:
client, token and request. -/
structure Network where
  server : Server := {}
  conns : List Conn := []
  taken : List (Int × Int × Server.Request) := []
  deriving DecidableEq, Repr

namespace Network

inductive Action
  /-- A client connects and sends its login. -/
  | connect (token : Int) (version pwd : String) (metadata : Option AooData)
    (addresses : List IpAddress)
  /-- A client performs a command. -/
  | perform (id : Int) (cmd : Command)
  /-- The server reads the next request of a client. -/
  | receive (id : Int) (taken : Bool)
  /-- A client reads the next message of the server. -/
  | deliver (id : Int)
  /-- A client closes its connection. -/
  | close (id : Int)
  /-- The user of the server answers a request that was taken over. -/
  | handleRequest (i : Nat) (result : Except (AooError × Option (Int × String)) Server.Response)
  | call (a : Server.Action)

def modifyConn (N : Network) (id : Int) (f : Conn → Conn) : Network :=
  { N with conns := Keyed.adjust Conn.id id f N.conns }

/-- The connection of a client that logs in. -/
def newConn (id token : Int) (version pwd : String) (metadata : Option AooData)
    (addresses : List IpAddress) : Conn where
  id
  client := { state := .connecting, nextToken := token + 1 }
  requests := [.login token version pwd metadata addresses]

/-- A client performs a command. -/
def performCommand (k : Conn) (cmd : Command) : Conn :=
  if k.client.permits cmd then
    { k with
      client := k.client.sendRequest cmd
      requests := k.requests ++ [cmd.message k.client.nextToken] }
  else k

/-- The server reads a request. -/
def receiveRequest (N : Network) (k : Conn) (m : Server.ServerMessage)
    (rest : List Server.ServerMessage) (taken : Bool) : Network :=
  { N.modifyConn k.id fun k => { k with requests := rest } with
    server := N.server.handleMessage k.id m taken
    taken := N.taken ++
      if taken then ((N.server.request k.id m).map fun r => (k.id, r)).toList else [] }

/-- A client reads a message. -/
def deliverMessage (N : Network) (k : Conn) (m : ClientMessage) (rest : List ClientMessage) :
    Network :=
  { N.modifyConn k.id fun k => { k with client := k.client.handleServerMessage m } with
    server := N.server.modifyClient k.id fun e => { e with stream := rest } }

def step (N : Network) : Action → Network
  | .connect token version pwd metadata addresses =>
    { N with
      server := N.server.acceptClient
      conns := N.conns ++
        [newConn N.server.nextClientId token version pwd metadata addresses] }
  | .perform id cmd => N.modifyConn id fun k => performCommand k cmd
  | .receive id taken =>
    match Keyed.lookup Conn.id id N.conns with
    | none => N
    | some k =>
      match k.requests with
      | [] => N
      | m :: rest => N.receiveRequest k m rest taken
  | .deliver id =>
    match Keyed.lookup Conn.id id N.conns, N.server.findClient id with
    | some k, some e =>
      match e.stream with
      | [] => N
      | m :: rest => N.deliverMessage k m rest
    | _, _ => N
  | .close id => N.modifyConn id fun k => { k with client := k.client.close }
  | .handleRequest i result =>
    match N.taken[i]? with
    | none => N
    | some (id, token, r) =>
      { N with
        server := N.server.handleRequest id token r result
        taken := N.taken.eraseIdx i }
  | .call a => if a.isCall then { N with server := N.server.step a } else N

end Network

/-! ## A client and its messages -/

namespace Client

theorem nextToken_handleServerMessage (c : Client) (m : ClientMessage) :
    (c.handleServerMessage m).nextToken = c.nextToken := by
  by_cases hc : c.state = .disconnected
  · rw [handleServerMessage_disconnected hc]
  · cases hm : m.token? with
    | none => exact (frames_handleServerMessage c hm).nextToken
    | some token =>
      rw [handleServerMessage_token hc hm]
      cases hp : c.pending token with
      | none => rw [respond_none hp]
      | some cmd =>
        rw [respond_eq hp]
        exact (frames_handleResponse c cmd m).nextToken

/-- A message does not bring requests. -/
theorem pendingRequests_subset (c : Client) (m : ClientMessage) :
    (c.handleServerMessage m).pendingRequests ⊆ c.pendingRequests := by
  have hframes : ∀ f : Client → Client, Frames f c → (f c).pendingRequests ⊆ c.pendingRequests := by
    intro f hf
    rcases hf.pendingRequests with hsame | ⟨-, hnil⟩
    · rw [hsame]
      exact List.Subset.refl _
    · rw [hnil]
      exact List.nil_subset _
  by_cases hc : c.state = .disconnected
  · rw [handleServerMessage_disconnected hc]
    exact List.Subset.refl _
  · cases hm : m.token? with
    | none => exact hframes _ (frames_handleServerMessage c hm)
    | some token =>
      rw [handleServerMessage_token hc hm]
      cases hp : c.pending token with
      | none =>
        rw [respond_none hp]
        exact List.Subset.refl _
      | some cmd =>
        rw [respond_eq hp]
        exact fun x hx => hframes _ (frames_handleResponse c cmd m) (Keyed.mem_of_mem_remove hx)

/-- A request may be sent before or after a message is read, unless this closes the client. -/
theorem sendRequest_handleServerMessage (c : Client) (cmd : Command) {m : ClientMessage}
    (hm : m.token? ≠ some c.nextToken) :
    (c.sendRequest cmd).handleServerMessage m = (c.handleServerMessage m).sendRequest cmd ∨
      ((c.sendRequest cmd).handleServerMessage m).state = .disconnected := by
  have hframes : ∀ f : Client → Client, Frames f c →
      f (c.sendRequest cmd) = (f c).sendRequest cmd ∨
        (f (c.sendRequest cmd)).state = .disconnected := by
    intro f hf
    rcases hf with ⟨c', h⟩ | h
    · refine .inl ((h _ _).trans ?_)
      rw [show f c = _ from h c.pendingRequests c.nextToken]
      rfl
    · refine .inr ?_
      rw [show f (c.sendRequest cmd) = _ from h _ _]
      rfl
  by_cases hc : c.state = .disconnected
  · refine .inl ?_
    rw [handleServerMessage_disconnected hc]
    exact handleServerMessage_disconnected (c := c.sendRequest cmd) hc m
  · cases htoken : m.token? with
    | none => exact hframes _ (frames_handleServerMessage c htoken)
    | some token =>
      have hne : token ≠ c.nextToken := fun heq => hm (heq ▸ htoken)
      rw [handleServerMessage_token hc htoken,
        handleServerMessage_token (c := c.sendRequest cmd) hc htoken]
      have hlookup : Keyed.lookup Prod.fst token (c.sendRequest cmd).pendingRequests =
          Keyed.lookup Prod.fst token c.pendingRequests := by
        rw [sendRequest, Keyed.lookup, List.find?_append, Keyed.lookup]
        simp [hne.symm]
      have hpending : (c.sendRequest cmd).pending token = c.pending token := by
        rw [pending, hlookup, pending]
      cases hp : c.pending token with
      | none => exact .inl (by rw [respond_none hp, respond_none (hpending.trans hp)])
      | some cmd' =>
        rw [respond_eq hp, respond_eq (hpending.trans hp)]
        rcases hframes (handleResponse · cmd' m) (frames_handleResponse c cmd' m) with heq | hclosed
        · refine .inl ?_
          rw [heq]
          have hother : (c.handleResponse cmd' m).nextToken ≠ token := by
            rw [(frames_handleResponse c cmd' m).nextToken]
            exact hne.symm
          rw [sendRequest, sendRequest,
            Keyed.remove_append_of_ne (x := ((c.handleResponse cmd' m).nextToken, cmd)) hother]
        · exact .inr hclosed

theorem read_sendRequest (c : Client) (cmd : Command) {ms : List ClientMessage}
    (hms : ∀ m ∈ ms, m.token? ≠ some c.nextToken)
    (hstate : ((c.sendRequest cmd).read ms).state ≠ .disconnected) :
    (c.sendRequest cmd).read ms = (c.read ms).sendRequest cmd := by
  induction ms generalizing c with
  | nil => rfl
  | cons m ms ih =>
    have hm := hms m (List.mem_cons_self ..)
    rw [read, List.foldl_cons] at hstate ⊢
    rcases sendRequest_handleServerMessage c cmd hm with heq | hclosed
    · rw [heq] at hstate ⊢
      refine ih (c.handleServerMessage m) (fun m' hm' => ?_) hstate
      rw [nextToken_handleServerMessage]
      exact hms m' (List.mem_cons_of_mem _ hm')
    · exact absurd hclosed (open_of_read hstate)

theorem nextToken_read (c : Client) (ms : List ClientMessage) :
    (c.read ms).nextToken = c.nextToken := by
  induction ms generalizing c with
  | nil => rfl
  | cons m ms ih => exact (ih _).trans (nextToken_handleServerMessage c m)

theorem pendingRequests_read (c : Client) (ms : List ClientMessage) :
    (c.read ms).pendingRequests ⊆ c.pendingRequests := by
  induction ms generalizing c with
  | nil => exact List.Subset.refl _
  | cons m ms ih => exact List.Subset.trans (ih _) (pendingRequests_subset c m)

end Client

/-! ## What a client will know -/

theorem Server.updates_stream (s : Server) (id : Int) (rest : List ClientMessage) :
    Updates s (s.modifyClient id fun e => { e with stream := rest }) fun id' e =>
      if id' = id then { e with stream := rest } else e :=
  updates_modifyClient s id fun _ => rfl

/-- The requests of a client that are on their way or taken over. -/
def Conn.awaited (k : Conn) (taken : List (Int × Int × Server.Request)) :
    List (Int × (Command → Prop)) :=
  k.requests.flatMap Server.ServerMessage.awaited ++
    (taken.filter fun x => x.1 = k.id).flatMap fun x => x.2.2.awaited x.2.1

/-- **The client will know its groups** when it has read the messages that are on their way,
unless one of these makes it close. The requests that are not answered yet have different
tokens and are pending. -/
structure Knows (s : Server) (k : Conn) (xs : List (Int × (Command → Prop))) : Prop where
  tokens : (xs.map Prod.fst).Nodup
  bound : ∀ token ∈ xs.map Prod.fst, token < k.client.nextToken
  pending : ∀ x ∈ k.client.pendingRequests, x.1 < k.client.nextToken
  stream : ∀ e, s.findClient k.id = some e → ∀ m ∈ e.stream, ∀ token ∈ m.token?,
    token < k.client.nextToken
  view : ∀ e, s.findClient k.id = some e → (k.client.read e.stream).state ≠ .disconnected →
    Client.View s.member k.id (k.client.read e.stream) ∧ (k.client.read e.stream).Awaits xs

namespace Knows

variable {s t : Server} {k : Conn} {xs ys : List (Int × (Command → Prop))}

/-- The server does something and informs the client. -/
theorem informs (h : Knows s k ys) (hi : Server.Informs xs s t k.id)
    (zs : List (Int × (Command → Prop)))
    (htokens : (xs.map Prod.fst ++ zs.map Prod.fst).Perm (ys.map Prod.fst))
    (hxs : ∀ c : Client, c.Awaits ys → c.Awaits xs) (hzs : ∀ c : Client, c.Awaits ys → c.Awaits zs) :
    Knows t k zs := by
  have hnodup := htokens.nodup_iff.mpr h.tokens
  obtain ⟨-, hz, hdisjoint⟩ := List.nodup_append.mp hnodup
  refine ⟨hz, fun token htoken => ?_, h.pending, fun e' he' m hm token htoken => ?_,
    fun e' he' hstate => ?_⟩
  · exact h.bound token (htokens.subset (List.mem_append_right _ htoken))
  · obtain ⟨e, ms, he, hstream, hms, -⟩ := hi.told e' he'
    rw [hstream] at hm
    rcases List.mem_append.mp hm with hm | hm
    · exact h.stream e he m hm token htoken
    · exact h.bound token (htokens.subset (List.mem_append_left _ (hms m hm token htoken)))
  · obtain ⟨e, ms, he, hstream, hms, hview⟩ := hi.told e' he'
    rw [hstream, Client.read_append] at hstate ⊢
    obtain ⟨hbefore, hawaits⟩ := h.view e he (Client.open_of_read hstate)
    refine ⟨hview _ (hxs _ hawaits) hbefore hstate, (hzs _ hawaits).read (fun m hm token htoken => ?_)
      hstate⟩
    exact fun hin => hdisjoint token (hms m hm token htoken) token hin rfl

/-- Nothing happens that concerns the client. -/
theorem of_eq (h : Knows s k xs) (hfind : t.findClient k.id = s.findClient k.id)
    (hmember : t.member = s.member) : Knows t k xs := by
  refine ⟨h.tokens, h.bound, h.pending, fun e he => ?_, fun e he => ?_⟩
  · exact h.stream e (hfind ▸ he)
  · rw [hmember]
    exact h.view e (hfind ▸ he)

/-- The client reads a message. -/
theorem deliver (h : Knows s k xs) {e : ClientEndpoint} (he : s.findClient k.id = some e)
    {m : ClientMessage} {rest : List ClientMessage} (hstream : e.stream = m :: rest) :
    Knows (s.modifyClient k.id fun e => { e with stream := rest })
      { k with client := k.client.handleServerMessage m } xs := by
  have hfind : (s.modifyClient k.id fun e => { e with stream := rest }).findClient k.id =
      some { e with stream := rest } := by
    rw [(Server.updates_stream s k.id rest).find, he, Option.map_some, if_pos rfl]
  have hread := h.view e he
  rw [hstream] at hread
  refine ⟨h.tokens, fun token htoken => ?_, fun x hx => ?_, fun e' he' m' hm' token htoken => ?_,
    fun e' he' => ?_⟩
  · exact Client.nextToken_handleServerMessage k.client m ▸ h.bound token htoken
  · exact Client.nextToken_handleServerMessage k.client m ▸
      h.pending x (Client.pendingRequests_subset k.client m hx)
  · rw [hfind] at he'
    injection he' with he'
    rw [← he'] at hm'
    refine Client.nextToken_handleServerMessage k.client m ▸ h.stream e he m' ?_ token htoken
    rw [hstream]
    exact List.mem_cons_of_mem _ hm'
  · rw [hfind] at he'
    injection he' with he'
    rw [← he']
    exact hread

/-- The client closes. -/
theorem close (h : Knows s k xs) : Knows s { k with client := k.client.close } xs where
  tokens := h.tokens
  bound := h.bound
  pending _ hx := absurd hx List.not_mem_nil
  stream := h.stream
  view e _ hstate := absurd (congrArg Client.state (Client.read_disconnected rfl e.stream)) hstate

/-- The client sends a request. -/
theorem send (h : Knows s k xs) (cmd : Command)
    (hys : ys.Perm ((k.client.nextToken, (· = cmd)) :: xs)) (requests : List Server.ServerMessage) :
    Knows s { k with client := k.client.sendRequest cmd, requests } ys := by
  have hnew : k.client.nextToken ∉ xs.map Prod.fst :=
    fun hmem => Int.lt_irrefl _ (h.bound _ hmem)
  have hperm := hys.map Prod.fst
  refine ⟨?_, fun token htoken => ?_, fun x hx => ?_, fun e he m hm token htoken => ?_,
    fun e he hstate => ?_⟩
  · exact hperm.nodup_iff.mpr (List.nodup_cons.mpr ⟨hnew, h.tokens⟩)
  · change token < k.client.nextToken + 1
    rcases List.mem_cons.mp (hperm.subset htoken) with rfl | hold
    · exact Int.lt_add_one_iff.mpr (Int.le_refl _)
    · exact Int.lt_trans (h.bound token hold) (Int.lt_add_one_iff.mpr (Int.le_refl _))
  · change x.1 < k.client.nextToken + 1
    rcases List.mem_append.mp hx with hold | hx
    · exact Int.lt_trans (h.pending x hold) (Int.lt_add_one_iff.mpr (Int.le_refl _))
    · rw [List.mem_singleton.mp hx]
      exact Int.lt_add_one_iff.mpr (Int.le_refl _)
  · exact Int.lt_trans (h.stream e he m hm token htoken) (Int.lt_add_one_iff.mpr (Int.le_refl _))
  · have hread : (k.client.sendRequest cmd).read e.stream =
        (k.client.read e.stream).sendRequest cmd := by
      refine Client.read_sendRequest k.client cmd (fun m hm htoken => ?_) hstate
      exact Int.lt_irrefl _ (h.stream e he m hm _ htoken)
    change Client.View s.member k.id ((k.client.sendRequest cmd).read e.stream) ∧
      ((k.client.sendRequest cmd).read e.stream).Awaits ys
    rw [hread]
    have hopen : (k.client.read e.stream).state ≠ .disconnected := by
      intro hclosed
      refine hstate ?_
      change ((k.client.sendRequest cmd).read e.stream).state = .disconnected
      rw [hread]
      exact hclosed
    obtain ⟨hview, hawaits⟩ := h.view e he hopen
    refine ⟨hview.congr rfl rfl, fun x hx => ?_⟩
    have hfresh : ∀ y ∈ (k.client.read e.stream).pendingRequests, y.1 ≠ k.client.nextToken :=
      fun y hy heq => Int.lt_irrefl _ (heq ▸ h.pending y (Client.pendingRequests_read _ _ hy))
    have hpending : ∀ token, ((k.client.read e.stream).sendRequest cmd).pending token =
        if token = k.client.nextToken then some cmd else (k.client.read e.stream).pending token := by
      intro token
      rw [Client.pending, Client.sendRequest, Client.nextToken_read,
        Keyed.lookup_append (x := (k.client.nextToken, cmd)) hfresh]
      split
      next => rfl
      next => rfl
    rcases List.mem_cons.mp (hys.subset hx) with rfl | hold
    · exact ⟨cmd, rfl, by rw [hpending, if_pos rfl]⟩
    · obtain ⟨cmd', hcmd', hp⟩ := hawaits x hold
      refine ⟨cmd', hcmd', ?_⟩
      have hne : x.1 ≠ k.client.nextToken := fun heq => hnew (heq ▸ List.mem_map_of_mem hold)
      rw [hpending, if_neg hne]
      exact hp

end Knows

end Aoo.Net
