import Mathlib.Data.List.Infix
import Aoo.Net.Exceptions
import Aoo.Net.Peers

/-!
# The peers that a server can announce

The clients with a server that has a send buffer. When a client joins a group, the server records this
and then tells the members of the group and the client about each other. The message has the names
of the group and the user, the relay and the addresses, and `send_peer_join` makes room for the
metadata only. If it does not fit, the members are not told, or not all of them. After the request of
a client the server removes it then, so that nobody misses it; but if the user of the server has accepted
the join with `handleRequest`, the client stays in a group of which some members do not know it
(`unannounced_peer`).

If the messages of each join fit, the peers of a client that has read everything are right
(`peers_agree`), whatever else does not fit.
-/

namespace Aoo.Net

open Lib

/-- The clients, and the server with its send buffer. -/
structure SendingNetwork extends Network where
  buffer : SendBuffer

namespace SendingNetwork

/-- A step. The request handler may also answer at once; an exception then leads to the removal of
the client whose message it was, which is a step of its own here (a `call`). -/
def step (T : AddressText) (N : SendingNetwork) : Network.Action → SendingNetwork
  | .receive id taken =>
    match Keyed.lookup Conn.id id N.conns with
    | none => N
    | some k =>
      match k.requests with
      | [] => N
      | m :: rest =>
        let (server, buffer) := N.server.stepSending T N.buffer (.handleMessage k.id m taken)
        { toNetwork := { N.receiveRequest k m rest taken with server }, buffer }
  | .handleRequest i result =>
    match N.taken[i]? with
    | none => N
    | some (id, token, r) =>
      let (server, buffer) := N.server.stepSending T N.buffer (.handleRequest id token r result)
      { toNetwork := { N.toNetwork with server, taken := N.taken.eraseIdx i }, buffer }
  | .call a =>
    if a.isCall then
      let (server, buffer) := N.server.stepSending T N.buffer a
      { toNetwork := { N.toNetwork with server }, buffer }
    else N
  | a => { N with toNetwork := N.toNetwork.step a }

/-- What the server does in a step. -/
def serverAction (N : SendingNetwork) : Network.Action → Option Server.Action
  | .receive id taken =>
    (Keyed.lookup Conn.id id N.conns).bind fun k =>
      k.requests.head?.map fun m => .handleMessage k.id m taken
  | .handleRequest i result =>
    N.taken[i]?.map fun x => .handleRequest x.1 x.2.1 x.2.2 result
  | .call a => if a.isCall then some a else none
  | _ => none

/-- The condition for a step: if it carries out a join, the reply and the messages by which the
client and the members of the group hear of each other fit in the send buffer. -/
def JoinFits (T : AddressText) (N : SendingNetwork) (a : Network.Action) : Prop :=
  ∀ x ∈ N.serverAction a, Server.AllFit T N.buffer (x.joinOps N.server)

instance (T : AddressText) (N : SendingNetwork) (a : Network.Action) : Decidable (N.JoinFits T a) :=
  inferInstanceAs (Decidable (∀ x ∈ N.serverAction a, _))

end SendingNetwork

/-! ## What an exception leaves -/

namespace Network

variable {N : Network} {k : Conn}

/-- Something happens on the server that is of no concern to the groups. -/
theorem Inv.quiet (h : N.Inv) {t : Server} (hquiet : Server.Quiet N.server t) :
    ({ N with server := t } : Network).Inv := by
  have hsome := hquiet.informs 0
  refine h.next hquiet.consistent hsome.names (hsome.one h.one) rfl (fun x hx => .inl hx)
    fun k hk => ?_
  exact (h.knows k hk).informs (hquiet.informs k.id) _ (List.Perm.refl _)
    (fun _ _ _ hx => absurd hx List.not_mem_nil) fun _ hawaits => hawaits

/-- A request is read and never answered. -/
theorem Inv.dropRequest (h : N.Inv) (hk : k ∈ N.conns) {m : Server.ServerMessage}
    {rest : List Server.ServerMessage} (hrequests : k.requests = m :: rest) :
    (N.modifyConn k.id fun k => { k with requests := rest }).Inv := by
  refine h.modifyConn (fun _ => rfl) fun k₀ hk₀ hid => ?_
  obtain rfl := h.conns.eq hk₀ hk hid
  have hknows := h.knows k₀ hk₀
  rw [Conn.awaited, hrequests, List.flatMap_cons, List.append_assoc] at hknows
  have hfinal := hknows.informs (Server.Informs.refl N.server k₀.id m.awaited)
    (({ k₀ with requests := rest } : Conn).awaited N.taken)
    (by rw [← List.map_append]; exact List.Perm.refl _)
    (fun c hc x hx => hc x (List.mem_append_left _ hx))
    fun c hc x hx => hc x (List.mem_append_right _ hx)
  exact ⟨hfinal.tokens, hfinal.bound, hfinal.pending, hfinal.stream, hfinal.view⟩

/-- A request that was taken over is never answered. -/
theorem Inv.dropTaken (h : N.Inv) {i : Nat} {x : Int × Int × Server.Request}
    (hi : N.taken[i]? = some x) : ({ N with taken := N.taken.eraseIdx i } : Network).Inv := by
  refine h.next h.server (Server.Informs.refl N.server 0 []).names h.one rfl
    (fun x hx => .inl (List.mem_of_mem_eraseIdx hx)) fun k hk => ?_
  have hperm := awaited_eraseIdx k hi
  refine (h.knows k hk).informs (Server.Informs.refl N.server k.id _) _ ?_
    (fun c hc y hy => hc y (hperm.subset (List.mem_append_left _ hy)))
    fun c hc y hy => hc y (hperm.subset (List.mem_append_right _ hy))
  rw [← List.map_append]
  exact hperm.map Prod.fst

end Network

namespace SendingNetwork

variable {T : AddressText} {N : SendingNetwork}

/-- **A step preserves the invariant** if the messages of its join fit. -/
theorem joinedInv_step (h : N.JoinedInv) {a : Network.Action}
    (hall : Network.AllJoined N.server) (hone : Network.OnePerGroup (N.step T a).server)
    (hfits : N.JoinFits T a) : (N.step T a).JoinedInv := by
  have hsame : (N.step T a).toNetwork = N.toNetwork.step a → (N.step T a).JoinedInv := by
    intro heq
    rw [heq] at hone ⊢
    exact h.step a hall hone
  cases a with
  | connect | perform | deliver | close => exact hsame rfl
  | receive id taken =>
    cases hk : Keyed.lookup Conn.id id N.conns with
    | none =>
      refine hsame ?_
      rw [step, Network.step, hk]
    | some k =>
      cases hrequests : k.requests with
      | nil =>
        refine hsame ?_
        rw [step, Network.step, hk]
        simp only [hrequests]
      | cons m rest =>
        have hmem := Keyed.mem_of_lookup hk
        have hstep : (N.step T (.receive id taken)).toNetwork =
            { N.receiveRequest k m rest taken with
              server := (N.server.stepSending T N.buffer (.handleMessage k.id m taken)).1 } := by
          rw [step, hk]
          simp only [hrequests]
        have hfits' : Server.AllFit T N.buffer
            (Server.Action.joinOps N.server (.handleMessage k.id m taken)) := by
          refine hfits (.handleMessage k.id m taken) ?_
          rw [serverAction, hk, Option.bind_some, hrequests]
          rfl
        rcases Server.stepSending_cases h.server hfits' with hok | ⟨-, hnot⟩ |
          ⟨_, _, _, t, heq, hopen, hquiet, hremoved⟩
        · refine hsame ?_
          rw [hstep, hok, Network.step, hk]
          simp only [hrequests]
          rfl
        · exact absurd rfl (hnot k.id m taken)
        · -- The request is read, the handler throws, and the client is removed.
          cases heq
          have htaken : (N.receiveRequest k m rest taken).taken = N.taken := by
            rw [Network.receiveRequest]
            cases taken with
            | false => exact List.append_nil _
            | true =>
              cases hrequest : N.server.request k.id m with
              | none => exact List.append_nil _
              | some x => exact absurd ⟨rfl, by rw [hrequest]; rfl⟩ hopen
          have hinv := ((h.toInv.dropRequest hmem hrequests).quiet hquiet).call
            (a := .removeClient k.id) rfl
          rw [hstep, hremoved]
          refine ⟨⟨hinv.server, hinv.one, hinv.conns, hinv.range, ?_, ?_, ?_⟩, ?_⟩
          · rw [htaken]
            exact hinv.takenRange
          · rw [htaken]
            exact hinv.known
          · rw [htaken]
            exact hinv.knows
          · rw [htaken]
            exact h.new
  | handleRequest i result =>
    cases hi : N.taken[i]? with
    | none =>
      refine hsame ?_
      rw [step, Network.step, hi]
    | some x =>
      obtain ⟨id, token, r⟩ := x
      have hstep : (N.step T (.handleRequest i result)).toNetwork =
          { N.toNetwork with
            server := (N.server.stepSending T N.buffer (.handleRequest id token r result)).1
            taken := N.taken.eraseIdx i } := by
        rw [step, hi]
      have hfits' : Server.AllFit T N.buffer
          (Server.Action.joinOps N.server (.handleRequest id token r result)) := by
        refine hfits (.handleRequest id token r result) ?_
        rw [serverAction, hi]
        rfl
      rcases Server.stepSending_cases h.server hfits' with hok | ⟨hquiet, -⟩ | ⟨_, _, _, _, heq, -⟩
      · refine hsame ?_
        rw [hstep, hok, Network.step, hi]
        rfl
      · rw [hstep]
        exact ⟨(h.toInv.dropTaken hi).quiet hquiet,
          fun x hx => h.new x (List.mem_of_mem_eraseIdx hx)⟩
      · cases heq
  | call a =>
    cases ha : a.isCall with
    | false =>
      refine hsame ?_
      rw [step, Network.step, ha]
      rfl
    | true =>
      have hstep : (N.step T (.call a)).toNetwork =
          { N.toNetwork with server := (N.server.stepSending T N.buffer a).1 } := by
        rw [step, if_pos ha]
      have hfits' : Server.AllFit T N.buffer (a.joinOps N.server) := by
        refine hfits a ?_
        rw [serverAction, if_pos ha]
        rfl
      rcases Server.stepSending_cases h.server hfits' with hok | ⟨hquiet, -⟩ | ⟨_, _, _, _, rfl, -⟩
      · refine hsame ?_
        rw [hstep, hok, Network.step, if_pos ha]
      · rw [hstep]
        exact ⟨h.toInv.quiet hquiet, h.new⟩
      · cases ha

/-- **The peers of a client are the other users of its groups**, in every state of a run in which
all users are created by joins, no client has two users in a group, and the messages of each
join fit. -/
theorem peers_agree (T : AddressText) (N : SendingNetwork) (hN : N.Fresh)
    (as : List Network.Action)
    (hall : ∀ bs, bs <+: as → Network.AllJoined (bs.foldl (step T) N).server)
    (hone : ∀ bs, bs <+: as → Network.OnePerGroup (bs.foldl (step T) N).server)
    (hfits : StepsAll (step T) (JoinFits T) N as) :
    ∀ bs, bs <+: as → (bs.foldl (step T) N).PeersAgree := by
  have hsteps : StepsAll (step T) (fun N a => Network.AllJoined N.server ∧
      Network.OnePerGroup (N.step T a).server ∧ N.JoinFits T a) N as := by
    refine stepsAll_iff.mpr fun cs a hcs => ⟨hall cs ((List.prefix_append cs [a]).trans hcs), ?_,
      stepsAll_iff.mp hfits cs a hcs⟩
    have hnext := hone (cs ++ [a]) hcs
    rw [List.foldl_append] at hnext
    exact hnext
  have hstart : N.JoinedInv := ⟨hN.inv, fun x hx => by rw [hN.taken] at hx; cases hx⟩
  intro bs hbs
  have hrun := StepsAll.invariant (I := fun N : SendingNetwork => N.JoinedInv)
    (fun _ _ h hC => joinedInv_step h hC.1 hC.2.1 hC.2.2) hstart hsteps
  exact (hrun bs hbs).toInv.peersAgree

/-- A system that has just been set up. -/
def fresh : SendingNetwork := { buffer := Server.initialBuffer }

theorem fresh_fresh : fresh.Fresh := ⟨⟨rfl, rfl, by decide, by decide⟩, rfl, rfl⟩

/-- Two clients join a group; then one of them is thrown out for metadata that is too long. -/
def thrownOut : List Network.Action :=
  Network.visit ++
    [.perform 1 (.groupUpdate 0 ⟨1, List.replicate 4096 0⟩), .receive 1 false, .deliver 0]

theorem thrownOut_peers_agree :
    (((Network.visit.foldl (step sampleText) fresh).conns.map fun k =>
        k.client.peers.map (·.userId)) = [[1], [0]] ∧
      ((thrownOut.foldl (step sampleText) fresh).conns.map fun k =>
        k.client.peers.map (·.userId)) = [[], [0]]) ∧
      (thrownOut.foldl (step sampleText) fresh).PeersAgree := by
  refine ⟨by decide +kernel, ?_⟩
  have hboth : ∀ bs ∈ thrownOut.inits,
      Network.AllJoined (bs.foldl (step sampleText) fresh).server ∧
        Network.OnePerGroup (bs.foldl (step sampleText) fresh).server := by
    decide +kernel
  have hfits : StepsAll (step sampleText) (JoinFits sampleText) fresh thrownOut := by
    decide +kernel
  exact peers_agree sampleText fresh fresh_fresh thrownOut
    (fun bs hbs => (hboth bs ((List.mem_inits bs thrownOut).mpr hbs)).1)
    (fun bs hbs => (hboth bs ((List.mem_inits bs thrownOut).mpr hbs)).2) hfits thrownOut
    (List.prefix_refl _)

/-- A client that has as many addresses as its login has room for. -/
def manyAddresses : List IpAddress :=
  List.replicate 224 ⟨[203, 0, 113, 7], 50000⟩

/-- Two clients join a group, and the user of the server accepts both joins. -/
def accepted : List Network.Action :=
  Network.connected 0 ++
    [.connect 0 "2.0" "" none manyAddresses, .receive 1 false, .deliver 1,
      .perform 0 (Network.joinCommand "a" "x"), .receive 0 true, .handleRequest 0 (.ok (.groupJoin {})),
      .deliver 0, .perform 1 (Network.joinCommand "a" "y"), .receive 1 true,
      .handleRequest 0 (.ok (.groupJoin {})), .deliver 1, .deliver 1]

/-- The first client does not hear of the second, which is active in the group. -/
theorem unannounced_peer :
    (∀ bs ∈ accepted.inits, Network.AllJoined (bs.foldl (step sampleText) fresh).server ∧
      Network.OnePerGroup (bs.foldl (step sampleText) fresh).server) ∧
      ((accepted.foldl (step sampleText) fresh).conns.map fun k =>
        (k.id, k.client.state, k.client.peers.map (·.userId))) =
          [(0, .connected, []), (1, .connected, [0])] ∧
      ¬ (accepted.foldl (step sampleText) fresh).PeersAgree := by
  have hconns : ((accepted.foldl (step sampleText) fresh).conns.map fun k =>
      (k.id, k.client.state, k.client.peers.map (·.userId))) =
        [(0, .connected, []), (1, .connected, [0])] := by
    decide +kernel
  refine ⟨by decide +kernel, hconns, fun h => ?_⟩
  have hgroups : (accepted.foldl (step sampleText) fresh).server.groups.map (fun g =>
      g.users.map fun u => (u.client, u.active)) = [[(0, true), (1, true)]] := by
    decide +kernel
  have hclients : (accepted.foldl (step sampleText) fresh).server.clients.map (fun e =>
      (e.id, e.stream)) = [(0, []), (1, [])] := by
    decide +kernel
  generalize accepted.foldl (step sampleText) fresh = N at hconns hgroups hclients h
  obtain ⟨k, hk, hkeq⟩ : ∃ k ∈ N.conns, (k.id, k.client.state, k.client.peers.map (·.userId)) =
      (0, .connected, []) := List.mem_map.mp (by rw [hconns]; exact List.mem_cons_self)
  obtain ⟨e, he, heeq⟩ : ∃ e ∈ N.server.clients, (e.id, e.stream) = (0, []) :=
    List.mem_map.mp (by rw [hclients]; exact List.mem_cons_self)
  obtain ⟨g, hg, husers⟩ : ∃ g ∈ N.server.groups, g.users.map (fun u => (u.client, u.active)) =
      [(0, true), (1, true)] := List.mem_map.mp (by rw [hgroups]; exact List.mem_cons_self)
  obtain ⟨own, hown, howneq⟩ : ∃ u ∈ g.users, (u.client, u.active) = (0, true) :=
    List.mem_map.mp (by rw [husers]; exact List.mem_cons_self)
  obtain ⟨other, hother, hothereq⟩ : ∃ u ∈ g.users, (u.client, u.active) = (1, true) :=
    List.mem_map.mp (by rw [husers]; exact List.mem_cons_of_mem _ List.mem_cons_self)
  simp only [Prod.mk.injEq, List.map_eq_nil_iff] at hkeq heeq howneq hothereq
  have hperm := h k hk e he (heeq.1.trans hkeq.1.symm) heeq.2 (by rw [hkeq.2.1]; decide) g hg own
    hown (howneq.1.trans hkeq.1.symm)
  rw [hkeq.2.2] at hperm
  have hmem : other.id ∈ (g.users.filter fun u => u.active ∧ u.client ≠ k.id).map User.id := by
    refine List.mem_map_of_mem (List.mem_filter.mpr ⟨hother, decide_eq_true ⟨hothereq.2, ?_⟩⟩)
    rw [hothereq.1, hkeq.1]
    decide
  exact absurd (hperm.symm.subset hmem) List.not_mem_nil

end SendingNetwork

end Aoo.Net
