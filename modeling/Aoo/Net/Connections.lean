import Aoo.Net.Responses
import Aoo.Net.StreamReceiver

/-!
# The connections of a client

A client has one `osc_stream_receiver` for all the TCP connections that it makes in its life, and
none of the ways in which a connection ends resets it: what a connection leaves in the
buffer is there when the next one begins. A server makes a new receiver for every connection.

`TcpClient` is a session with this receiver. What a session gets as messages, it gets as
bytes. The bytes received on the present connection and the messages that were read
from them are kept next to it.

**Main result** (`parsed_of_received`): a connection is read like the first one if the ones before
it ended at the end of a message, or with a size or a first byte that is refused
(`EndsClean`). `EndsClean` is exactly the condition for an empty buffer (`endsClean_iff`).
-/

namespace Aoo.Net

open Lib

variable {τ τ' ε : Type}

/-- The stream in the end, with or without an exception. -/
def Stream.endOf : Except (StreamFailure τ ε) (Stream τ) → Stream τ
  | .ok s => s
  | .error f => f.stream

/-- A client, and its end of the TCP connection. -/
structure TcpClient where
  session : ClientSession := {}
  receiver : OscStreamReceiver := {}
  /-- The bytes received on this connection. -/
  received : List UInt8 := []
  /-- The packets of this connection that are messages. -/
  parsed : List (List UInt8) := []
  deriving DecidableEq, Repr

namespace TcpClient

section

variable (T : AddressText) (localIpv4 : IpAddress)
-- `osc::ReceivedMessage`: an exception, or a message, which may have an address that is not handled
variable (readMessage : List UInt8 → Except String (Option OscMessage))

/-- The handler in `Client::receive_data`. -/
def handlePacket (t : ClientSession × List (List UInt8)) (packet : List UInt8) :
    (ClientSession × List (List UInt8)) × Option String :=
  match readMessage packet with
  | .error what => (t, some what)
  | .ok none => ((t.1, t.2 ++ [packet]), none)
  | .ok (some m) => ((t.1.handleServerMessage T localIpv4 m, t.2 ++ [packet]), none)

/-- `Client::receive_data`. No bytes are the end of the connection. -/
def receiveData (c : TcpClient) (data : List UInt8) : TcpClient :=
  if c.session.tcpOpen = true then
    if data = [] then { c with session := c.session.close }
    else
      match Stream.handleMessage (handlePacket T localIpv4 readMessage)
          ⟨c.receiver, (c.session, c.parsed), c.received.length⟩ data with
      | some (.ok s) => ⟨s.state.1, s.receiver, c.received ++ data, s.state.2⟩
      | some (.error f) =>
        ⟨f.stream.state.1.close, f.stream.receiver, c.received ++ data, f.stream.state.2⟩
      | none => c
  else c

inductive Action
  /-- The session does something else than to receive data. -/
  | session (a : ClientSession.Action)
  | receiveData (data : List UInt8)
  /-- `recv()` fails. -/
  | recvFailed
  deriving DecidableEq, Repr

/-- A new TCP connection is made: a login is performed, and `do_connect` is successful. -/
def opens (s : ClientSession) : ClientSession.Action → Bool
  | .perform o =>
    match s.commands, s.connection with
    | .login _ _ :: _, some _ => !s.crashed && o.connected
    | _, _ => false
  | _ => false

def step (c : TcpClient) : Action → TcpClient
  | .session (.receiveData _) => c
  | .session a =>
    let session := c.session.step T localIpv4 a
    if opens c.session a then { c with session, received := [], parsed := [] }
    else { c with session }
  | .receiveData data =>
    if c.session.crashed = true then c else c.receiveData T localIpv4 readMessage data
  | .recvFailed =>
    if c.session.crashed = false ∧ c.session.tcpOpen = true then
      { c with session := c.session.close }
    else c

/-! ## A connection of its own -/

/-- The messages are only collected. -/
def collect (packets : List (List UInt8)) (packet : List UInt8) :
    List (List UInt8) × Option String :=
  match readMessage packet with
  | .error what => (packets, some what)
  | .ok _ => (packets ++ [packet], none)

/-- How a new receiver reads the bytes of a connection. -/
def readAll (bytes : List UInt8) :
    Option (Except (StreamFailure (List (List UInt8)) String) (Stream (List (List UInt8)))) :=
  Stream.handleMessage (collect readMessage) ⟨{}, [], 0⟩ bytes

/-- The messages that a new receiver reads. -/
def messagesOf (bytes : List UInt8) : List (List UInt8) :=
  match readAll readMessage bytes with
  | some r => (Stream.endOf r).state
  | none => []

/-- A connection ends after a message, or with something that is refused before it
is complete. -/
def EndsClean (bytes : List UInt8) : Prop :=
  ∃ packets rest, Deframes bytes packets rest ∧
    (∀ packet ∈ packets, ∃ m, readMessage packet = .ok m) ∧
    (rest = [] ∨ (restException rest : Option (StreamException String)) ≠ none)

/-- A new connection is only made if the one before it has ended clean. -/
def Clean (c : TcpClient) : Action → Prop
  | .session a => opens c.session a = true → EndsClean readMessage c.received
  | _ => True

/-- What is known about the connection: how its bytes would be read by a new receiver. -/
structure Inv (c : TcpClient) : Prop where
  receiver_eq : ∀ r, readAll readMessage c.received = some r → (Stream.endOf r).receiver = c.receiver
  parsed_eq : messagesOf readMessage c.received = c.parsed
  open_ok : c.session.tcpOpen = true → ∃ s, readAll readMessage c.received = some (.ok s)

end

variable {T : AddressText} {localIpv4 : IpAddress}
  {readMessage : List UInt8 → Except String (Option OscMessage)}

/-! ## How a new receiver ends -/

theorem readAll_eq (bytes : List UInt8) :
    readAll readMessage bytes =
      some (Lib.run (Stream.stepByte (collect readMessage)) ⟨{}, [], 0⟩ bytes) :=
  Stream.handleMessage_eq_run (Stream.waits_new [] 0) bytes

theorem messagesOf_eq (bytes : List UInt8) :
    messagesOf readMessage bytes =
      (Stream.endOf (Lib.run (Stream.stepByte (collect readMessage)) ⟨{}, [], 0⟩ bytes)).state := by
  rw [messagesOf, readAll_eq]

/-- The receiver after bytes with readable packets: it holds the rest, or has refused it. -/
theorem run_readable {bytes : List UInt8} {packets : List (List UInt8)} {rest : List UInt8}
    (h : Deframes bytes packets rest)
    (hread : ∀ packet ∈ packets, ∃ m, readMessage packet = .ok m) :
    (Stream.endOf (Lib.run (Stream.stepByte (collect readMessage)) ⟨{}, [], 0⟩ bytes)).receiver =
      if (restException rest : Option (StreamException String)) = none then holding rest
      else {} := by
  have hquiet : ∀ packet ∈ packets, ∀ t, (collect readMessage t packet).2 = none := by
    intro packet hp t
    obtain ⟨m, hm⟩ := hread packet hp
    rw [collect, hm]
  rw [h.bytes_eq, run_append _ (run_packets packets h.packets_ok hquiet), run_rest h.rest_ok]
  cases (restException rest : Option (StreamException String)) with
  | none => rfl
  | some e => rfl

/-- A packet that is no message stays in the buffer. -/
theorem run_unreadable {packets : List (List UInt8)} (hok : ∀ packet ∈ packets, IsPacket packet)
    (hread : ¬ ∀ packet ∈ packets, ∃ m, readMessage packet = .ok m) (rest : List UInt8) :
    ∀ (t : List (List UInt8)) (k : Nat),
      (Stream.endOf (Lib.run (Stream.stepByte (collect readMessage)) ⟨{}, t, k⟩
        (packets.flatMap frame ++ rest))).receiver.buffer ≠ [] := by
  induction packets with
  | nil => exact absurd (fun _ hp => absurd hp List.not_mem_nil) hread
  | cons packet packets ih =>
    intro t k
    have hframe := run_frame (collect readMessage) t k
      (hok packet (List.mem_cons_self ..))
    rw [List.flatMap_cons, List.append_assoc]
    cases hm : readMessage packet with
    | error what =>
      rw [collect, hm] at hframe
      rw [run_error_append _ hframe]
      show frame packet ≠ []
      rw [frame]
      intro hnil
      have := congrArg List.length hnil
      rw [List.length_append, toBytes_length, List.length_nil] at this
      omega
    | ok m =>
      rw [collect, hm] at hframe
      rw [run_append _ hframe]
      refine ih (fun p hp => hok p (List.mem_cons_of_mem _ hp)) (fun hall => hread ?_) _ _
      intro p hp
      rcases List.mem_cons.mp hp with rfl | hp
      · exact ⟨m, hm⟩
      · exact hall p hp

/-- **The bytes of a connection leave the buffer empty exactly if it ends clean.** -/
theorem endsClean_iff (bytes : List UInt8) :
    EndsClean readMessage bytes ↔
      (Stream.endOf (Lib.run (Stream.stepByte (collect readMessage)) ⟨{}, [], 0⟩ bytes)).receiver =
        {} := by
  constructor
  · rintro ⟨packets, rest, h, hread, hrest⟩
    rw [run_readable h hread]
    rcases hrest with rfl | hrest
    · rfl
    · rw [if_neg hrest]
  · intro hempty
    obtain ⟨packets, rest, h⟩ := deframes_exists bytes
    have hread : ∀ packet ∈ packets, ∃ m, readMessage packet = .ok m := by
      by_contra hread
      refine run_unreadable h.packets_ok hread rest [] 0 ?_
      rw [← h.bytes_eq, hempty]
    refine ⟨packets, rest, h, hread, ?_⟩
    rw [run_readable h hread] at hempty
    by_cases hrest : (restException rest : Option (StreamException String)) = none
    · left
      rw [if_pos hrest] at hempty
      exact congrArg OscStreamReceiver.buffer hempty
    · exact Or.inr hrest

instance (bytes : List UInt8) : Decidable (EndsClean readMessage bytes) :=
  decidable_of_iff _ (endsClean_iff bytes).symm

instance decidableClean (c : TcpClient) : ∀ a, Decidable (c.Clean readMessage a)
  | .session a =>
    inferInstanceAs (Decidable (opens c.session a = true → EndsClean readMessage c.received))
  | .receiveData _ => .isTrue trivial
  | .recvFailed => .isTrue trivial

/-! ## Who opens a connection -/

theorem sendServerMessage_tcpOpen {s : ClientSession} {sent : Bool}
    (h : (s.sendServerMessage sent).tcpOpen = true) : s.tcpOpen = true := by
  rw [ClientSession.sendServerMessage] at h
  split at h
  · exact absurd h Bool.false_ne_true
  · exact h

theorem performUser_tcpOpen {s : ClientSession} {cmd : UserCommand} {o : ClientSession.Outcome}
    (h : (s.performUser cmd o).tcpOpen = true) : s.tcpOpen = true := by
  cases cmd with
  | connect timeout =>
    change (ClientSession.performConnect { s with performed := s.performed + 1 } s.performed timeout
      o).tcpOpen = true at h
    rw [ClientSession.performConnect] at h
    split at h
    · exact h
    · split at h
      · exact h
      · exact h
  | disconnect =>
    change (ClientSession.performDisconnect { s with performed := s.performed + 1 }
      s.performed).tcpOpen = true at h
    rw [ClientSession.performDisconnect] at h
    split at h
    · exact h
    · exact absurd h nofun
  | request cmd =>
    change (ClientSession.performRequest { s with performed := s.performed + 1 } s.performed cmd
      o).tcpOpen = true at h
    rw [ClientSession.performRequest] at h
    split at h
    · have hopen := sendServerMessage_tcpOpen h
      exact hopen
    · exact h

/-- Only a login makes a new connection. -/
theorem step_tcpOpen {s : ClientSession} {a : ClientSession.Action}
    (hdata : ∀ e, a ≠ .receiveData e) (hopens : opens s a = false)
    (h : (s.step T localIpv4 a).tcpOpen = true) : s.tcpOpen = true := by
  unfold ClientSession.step at h
  split at h
  · exact h
  next hcrashed =>
    cases a with
    | push cmd => exact h
    | perform o =>
      change (s.perform o).tcpOpen = true at h
      rw [ClientSession.perform] at h
      split at h
      · exact h
      next cmd cmds hcommands =>
        cases cmd with
        | user cmd => exact performUser_tcpOpen (s := { s with commands := cmds }) h
        | login publicIp attempt =>
          change (ClientSession.performLogin { s with commands := cmds } o).tcpOpen = true at h
          rw [ClientSession.performLogin] at h
          split at h
          · exact h
          next c hconnection =>
            have hconn : s.connection = some c := hconnection
            rw [opens] at hopens
            simp only [hcommands, hconn, Bool.and_eq_false_iff, Bool.not_eq_false'] at hopens
            rcases hopens with hopens | hopens
            · exact absurd hopens hcrashed
            · rw [hopens] at h
              exact absurd h nofun
        | timeout attempt =>
          change (ClientSession.performTimeout { s with commands := cmds }).tcpOpen = true at h
          rw [ClientSession.performTimeout] at h
          split at h
          · exact h
          · split at h
            · exact absurd h nofun
            · exact h
    | receiveData e => exact absurd rfl (hdata e)
    | pingServer responding sent =>
      change (s.pingServer responding sent).tcpOpen = true at h
      rw [ClientSession.pingServer] at h
      split at h
      · split at h
        · exact sendServerMessage_tcpOpen h
        · exact absurd h nofun
      · exact h
    | stop => exact absurd h nofun
    | receiveReply i publicAddr =>
      exact (s.receiveReply_same i publicAddr).tcpOpen_eq.symm.trans h
    | handleQuery => exact s.handleQuery_same.tcpOpen_eq.symm.trans h
    | update now => exact (s.update_same now).tcpOpen_eq.symm.trans h
    | continueUpdate => exact s.continueUpdate_same.tcpOpen_eq.symm.trans h

/-! ## Runs -/

theorem inv_start : Inv readMessage {} := by
  refine ⟨?_, rfl, nofun⟩
  intro r hr
  rw [readAll_eq] at hr
  obtain rfl := Option.some.inj hr
  rfl

/-- A session that keeps its connection, or closes it. -/
theorem Inv.keep {c : TcpClient} (h : c.Inv readMessage) {session : ClientSession}
    (hopen : session.tcpOpen = true → c.session.tcpOpen = true) :
    Inv readMessage { c with session } :=
  ⟨h.receiver_eq, h.parsed_eq, fun hs => h.open_ok (hopen hs)⟩

/-- After a clean end, the receiver is as good as new. -/
theorem Inv.opened {c : TcpClient} (h : c.Inv readMessage)
    (hclean : EndsClean readMessage c.received) (session : ClientSession) :
    Inv readMessage { c with session, received := [], parsed := [] } := by
  have hreceiver : c.receiver = {} := by
    rw [← h.receiver_eq _ (readAll_eq _), (endsClean_iff _).mp hclean]
  refine ⟨?_, rfl, fun _ => ⟨_, readAll_eq []⟩⟩
  intro r hr
  rw [readAll_eq] at hr
  obtain rfl := Option.some.inj hr
  exact hreceiver.symm

/-- What arrives is read as a new receiver would read it after the bytes before. -/
theorem Inv.receiveData {c : TcpClient} (h : c.Inv readMessage) (data : List UInt8) :
    Inv readMessage (c.receiveData T localIpv4 readMessage data) := by
  rw [TcpClient.receiveData]
  split
  next hopen =>
    split
    · exact h.keep (fun _ => hopen)
    · obtain ⟨s, hs⟩ := h.open_ok hopen
      have hreceiver := h.receiver_eq _ hs
      have hparsed := h.parsed_eq
      rw [readAll_eq] at hs
      have hrun := Option.some.inj hs
      rw [messagesOf_eq, hrun] at hparsed
      have hwaits := Stream.run_waits (Stream.waits_new [] 0) hrun
      -- the stream of the client, of which the collected messages are a part
      have hstream : Stream.map Prod.snd ⟨c.receiver, (c.session, c.parsed), c.received.length⟩ =
          s := by
        have hoffset := Stream.run_offset _ hrun
        rw [← hreceiver, ← hparsed]
        simp only [Stream.map, Stream.endOf]
        rw [← Nat.zero_add c.received.length, ← hoffset]
      have hcollect : ∀ t packet, collect readMessage (Prod.snd t) packet =
          (Prod.snd (handlePacket T localIpv4 readMessage t packet).1,
            (handlePacket T localIpv4 readMessage t packet).2) := by
        intro t packet
        rw [collect, handlePacket]
        cases readMessage packet with
        | error what => rfl
        | ok m =>
          cases m with
          | none => rfl
          | some m => rfl
      have hmap := Stream.run_map hcollect data
        ⟨c.receiver, (c.session, c.parsed), c.received.length⟩
      rw [hstream] at hmap
      have hall := run_append data hrun
      rw [hmap] at hall
      have hmine : (⟨c.receiver, (c.session, c.parsed), c.received.length⟩ :
          Stream (ClientSession × List (List UInt8))).Waits := by
        rw [← hstream] at hwaits
        exact hwaits
      rw [Stream.handleMessage_eq_run hmine]
      cases hr : Lib.run (Stream.stepByte (handlePacket T localIpv4 readMessage))
          ⟨c.receiver, (c.session, c.parsed), c.received.length⟩ data with
      | ok s' =>
        rw [hr] at hall
        refine ⟨?_, ?_, fun _ => ⟨_, by rw [readAll_eq, hall]; rfl⟩⟩
        · intro r hread
          rw [readAll_eq, hall] at hread
          obtain rfl := Option.some.inj hread
          rfl
        · rw [messagesOf_eq, hall]
          rfl
      | error f =>
        rw [hr] at hall
        refine ⟨?_, ?_, nofun⟩
        · intro r hread
          rw [readAll_eq, hall] at hread
          obtain rfl := Option.some.inj hread
          rfl
        · rw [messagesOf_eq, hall]
          rfl
  next => exact h

theorem Inv.step {c : TcpClient} (h : c.Inv readMessage) {a : Action}
    (hclean : c.Clean readMessage a) : Inv readMessage (c.step T localIpv4 readMessage a) := by
  cases a with
  | session a =>
    have hsession : ∀ a, (∀ e, a ≠ .receiveData e) →
        (opens c.session a = true → EndsClean readMessage c.received) →
        Inv readMessage (if opens c.session a then
          { c with session := c.session.step T localIpv4 a, received := [], parsed := [] }
          else { c with session := c.session.step T localIpv4 a }) := by
      intro a hdata hclean
      cases hopens : opens c.session a with
      | true => exact h.opened (hclean hopens) _
      | false => exact h.keep (step_tcpOpen hdata hopens)
    cases a with
    | receiveData e => exact h
    | _ =>
      refine hsession _ ?_ hclean
      intro e he
      cases he
  | receiveData data =>
    show Inv readMessage (if c.session.crashed = true then _ else _)
    split
    · exact h
    · exact h.receiveData data
  | recvFailed =>
    show Inv readMessage (if _ then _ else _)
    split
    · exact h.keep nofun
    · exact h

/-- **A connection is read from its own bytes**: in every run in which each connection but the
last has ended clean, the messages of a connection are those that a new receiver
reads from the bytes received on it. -/
theorem parsed_of_received (T : AddressText) (localIpv4 : IpAddress)
    (readMessage : List UInt8 → Except String (Option OscMessage)) (as : List Action)
    (hgood : StepsAll (step T localIpv4 readMessage) (Clean readMessage) {} as) :
    ∀ bs, bs <+: as → (bs.foldl (step T localIpv4 readMessage) {}).parsed =
      messagesOf readMessage (bs.foldl (step T localIpv4 readMessage) {}).received := by
  intro bs hbs
  have hinv := StepsAll.invariant (I := Inv readMessage) (fun _ _ h hclean => h.step hclean)
    inv_start hgood bs hbs
  exact hinv.parsed_eq.symm

/-- The user connects to a server at port 7078, and the client logs in. The reply is to the
query with this number. -/
def connects (query : Nat) (now : ℚ) : List Action :=
  ([.push (.connect 0), .perform { resolved := some ⟨[127, 0, 0, 1], 7078⟩ }, .update now,
    .continueUpdate, .continueUpdate, .continueUpdate, .receiveReply query ⟨[127, 0, 0, 1], 50000⟩,
    .handleQuery, .handleQuery, .handleQuery, .perform { connected := true, sent := true }] :
    List ClientSession.Action).map Action.session

/-- `/aoo/client/ping` -/
def pingPacket : List UInt8 :=
  [47, 97, 111, 111, 47, 99, 108, 105, 101, 110, 116, 47, 112, 105, 110, 103, 0, 0, 0, 0]

/-- Nothing but a ping can be read. -/
def readPing (packet : List UInt8) : Except String (Option OscMessage) :=
  if packet = pingPacket then .ok (some ⟨.client .ping, []⟩)
  else .error "unterminated address pattern"

/-- The server closes the first connection after a ping, and the client connects again. -/
theorem parsed_after_ping :
    let as := connects 0 0 ++ [.receiveData (frame pingPacket), .receiveData []] ++
      connects 1 1 ++ [.receiveData (frame pingPacket)]
    let c := as.foldl (step sampleText .clear readPing) {}
    c.received = frame pingPacket ∧ c.parsed = messagesOf readPing c.received := by
  intro as c
  refine ⟨by decide +kernel, ?_⟩
  refine parsed_of_received sampleText .clear readPing as ?_ as (List.prefix_refl _)
  decide +kernel

/-- If the first connection is lost in the middle of a size, the client does not find the ping
that it would find on its first connection. -/
theorem ping_misread :
    let first := connects 0 0 ++ [.receiveData (frame pingPacket)]
    let second := connects 0 0 ++ [.receiveData [0, 0], .receiveData []] ++
      connects 1 1 ++ [.receiveData (frame pingPacket)]
    let c := first.foldl (step sampleText .clear readPing) {}
    let c' := second.foldl (step sampleText .clear readPing) {}
    c'.received = c.received ∧ c.parsed = [pingPacket] ∧ c'.parsed = [] := by
  decide +kernel

end TcpClient

end Aoo.Net
