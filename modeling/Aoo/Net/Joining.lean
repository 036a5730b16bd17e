import Aoo.Net.Informs

/-!
# Joining, and the messages of a client

A client that joins a group gets a reply and then the users of the group, and these get
the new user. With this, every operation of the server informs the clients, and so does the
server when it reads a message (`informs_handleMessage`) or answers a request
(`informs_handleRequest`).
-/

namespace Aoo.Net

open Lib

namespace Client

theorem state_handlePeerJoin (c : Client) (p : PeerJoin) : (c.handlePeerJoin p).state = c.state := by
  unfold handlePeerJoin
  split
  next => rfl
  next =>
    split
    next => rfl
    next => rfl

theorem read_peerJoins {c : Client} (hc : c.state ≠ .disconnected) (ps : List PeerJoin) :
    c.read (ps.map .peerJoin) = ps.foldl handlePeerJoin c := by
  induction ps generalizing c with
  | nil => rfl
  | cons p ps ih =>
    have hp : c.handleServerMessage (.peerJoin p) = c.handlePeerJoin p := by
      rw [handleServerMessage, if_neg hc]
    rw [List.map_cons, read, List.foldl_cons, hp, List.foldl_cons]
    refine ih ?_
    rw [state_handlePeerJoin]
    exact hc

/-- The requests that are pending have no part in joining. -/
theorem joinGroup_pendingRequests (c : Client) (r : Server.GroupJoinRequest)
    (reply : GroupJoinReply) (xs : List (Int × Command)) :
    { c.joinGroup r reply with pendingRequests := xs } =
      ({ c with pendingRequests := xs } : Client).joinGroup r reply := by
  have hsame : ({ c with pendingRequests := xs } : Client).findGroupMembershipByName r.groupName =
      c.findGroupMembershipByName r.groupName := rfl
  unfold joinGroup
  rw [hsame]
  cases c.findGroupMembershipByName r.groupName with
  | none => rfl
  | some w => rfl

end Client

namespace Server

variable {s t : Server} {id : Int} {xs : List (Int × (Command → Prop))} {client : ClientEndpoint}
  {token : Int} {r : GroupJoinRequest} {response : GroupJoinResponse} {g : Group} {u : User}

theorem Effect.informs_none {f : Int → ClientEndpoint → ClientEndpoint} {m : Members}
    (h : Effect s t f m) (hone : OneUser s.member → OneUser t.member)
    (hnone : s.findClient id = none) : Informs xs s t id := by
  refine ⟨h.names, hone, fun e' he' => ?_⟩
  rw [h.find, hnone] at he'
  cases he'

theorem Joins.arrives (h : Joins s t client token r response g u)
    (hclient : client.id ≠ kAooIdInvalid) :
    Client.Arrives s.member t.member g.id g.name u := by
  obtain ⟨s₀, heffect, -⟩ := h.effect
  refine ⟨h.new, heffect.member, fun v n' w hw => ?_, decide_eq_true (h.owner ▸ hclient)⟩
  -- The group with the new user has the name that the group had before.
  have hne : v ≠ u.id := by
    intro heq
    rw [heq, h.new] at hw
    cases hw
  have hw' : t.member g.id v = some (n', w) := by
    rw [heffect.member, if_neg fun hand => hne hand.2]
    exact hw
  obtain ⟨g', hg', -, hname⟩ := member_eq_some.mp hw'
  rw [h.found] at hg'
  injection hg' with hg'
  rw [← hname, hg']

/-- The users that were there before. -/
theorem Joins.old (h : Joins s t client token r response g u) (hclient : client.id ≠ kAooIdInvalid)
    {own : Int} {n : String} {v : User} (hv : s.member g.id own = some (n, v)) :
    n = g.name ∧ v ∈ g.users ∧ v.id = own ∧ v.id ≠ u.id := by
  have hname := (h.arrives hclient).name own n v hv
  obtain ⟨g', -, hfind, -⟩ := member_eq_some.mp hv
  obtain ⟨-, rfl⟩ := Group.findUser_mem hfind
  subst hname
  refine ⟨rfl, (h.users v).mpr (.inr hv), rfl, fun heq => ?_⟩
  rw [heq, h.new] at hv
  cases hv

/-- The users that the new one is told about. -/
theorem joinMessages_joiner (s : Server) (g : Group) (u : User) (client : ClientEndpoint)
    {us : List User} (hus : ∀ peer ∈ us, peer.id ≠ u.id → peer.active = true →
      ∃ other, s.findClient peer.client = some other ∧ other.id ≠ client.id) :
    ∃ ps : List PeerJoin, us.flatMap (s.joinMessages g u client client.id) = ps.map .peerJoin ∧
      (∀ p ∈ ps, p.groupName = g.name ∧ p.groupId = g.id) ∧
      ps.map PeerJoin.userId =
        (us.filter fun peer => peer.id ≠ u.id ∧ peer.active).map User.id := by
  induction us with
  | nil => exact ⟨[], rfl, nofun, rfl⟩
  | cons peer us ih =>
    obtain ⟨ps, heq, hnames, hids⟩ := ih fun p hp => hus p (List.mem_cons_of_mem _ hp)
    rw [List.flatMap_cons, heq]
    by_cases hpeer : peer.id ≠ u.id ∧ peer.active
    · obtain ⟨other, hother, hne⟩ := hus peer (List.mem_cons_self ..) hpeer.1 hpeer.2
      have hmessage : ∃ p, s.joinMessages g u client client.id peer = [.peerJoin p] ∧
          p.groupName = g.name ∧ p.groupId = g.id ∧ p.userId = peer.id := by
        unfold joinMessages
        rw [if_pos hpeer, hother]
        simp only [if_true, if_neg hne.symm, List.append_nil]
        exact ⟨_, rfl, rfl, rfl, rfl⟩
      obtain ⟨p, hp, hname, hgroup, huser⟩ := hmessage
      refine ⟨p :: ps, by rw [hp]; rfl, fun q hq => ?_, ?_⟩
      · rcases List.mem_cons.mp hq with rfl | hq
        · exact ⟨hname, hgroup⟩
        · exact hnames q hq
      · rw [List.filter_cons_of_pos (by simpa using hpeer), List.map_cons, List.map_cons, hids, huser]
    · refine ⟨ps, ?_, hnames, ?_⟩
      · rw [joinMessages, if_neg hpeer, List.nil_append]
      · rw [List.filter_cons_of_neg (by simpa using hpeer), hids]

/-- Each member of the group is told about the new one. -/
theorem joinMessages_member {e : ClientEndpoint} (he : s.findClient id = some e)
    (hid : id ≠ kAooIdInvalid) (hne : id ≠ client.id) (peer : User) :
    s.joinMessages g u client id peer =
      if peer.id ≠ u.id ∧ peer.client = id then [peerJoinMessage g u client] else [] := by
  unfold joinMessages
  by_cases hpeer : peer.id ≠ u.id
  · by_cases hclient : peer.client = id
    · have hactive : peer.active = true := decide_eq_true (hclient ▸ hid)
      rw [if_pos ⟨hpeer, hactive⟩, if_pos ⟨hpeer, hclient⟩, hclient, he]
      simp only [if_neg hne, findClient_id he, if_true, List.nil_append]
    · have hnot : ¬ (peer.id ≠ u.id ∧ peer.client = id) := fun hand => hclient hand.2
      rw [if_neg hnot]
      split
      next =>
        cases hother : s.findClient peer.client with
        | none => rfl
        | some other =>
          have hother' : id ≠ other.id := fun heq => hclient ((findClient_id hother) ▸ heq.symm)
          simp only [if_neg hother', List.append_nil]
      next => rfl
  · rw [if_neg fun hand => hpeer hand.1, if_neg fun hand => hpeer hand.1]

/-- The joining client has no user in the group yet. -/
theorem Joins.outside (h : Joins s t client token r response g u) (hone : OneUser t.member)
    (hclient : client.id ≠ kAooIdInvalid) (n : String) (own : Int) :
    ¬ Owns s.member client.id n g.id own := by
  intro ⟨v, hv, hvclient⟩
  have harrives := h.arrives hclient
  have hne : own ≠ u.id := by
    intro heq
    rw [heq, h.new] at hv
    cases hv
  have hv' : t.member g.id own = some (n, v) := by
    rw [harrives.other fun hand => hne hand.2]
    exact hv
  exact hne (hone client.id hclient g.id n own g.name u.id ⟨v, hv', hvclient⟩
    ⟨u, harrives.at, h.owner⟩)

/-- The joining client does not think that it is a member already. -/
theorem Joins.unknown (h : Joins s t client token r response g u) (hone : OneUser t.member)
    (hclient : client.id ≠ kAooIdInvalid) {c : Client} (hc : Client.View s.member client.id c) :
    c.findGroupMembershipByName g.name = none := by
  refine Keyed.lookup_eq_none.mpr fun w hw hname => ?_
  have hown := hc.owns hw
  rw [hname] at hown
  have houtside := h.outside hone hclient
  have hne : w.groupId ≠ g.id := fun heq => houtside _ _ (heq ▸ hown)
  obtain ⟨v, hv, -⟩ := hown
  -- There is one group with this name.
  obtain ⟨s₀, heffect, -⟩ := h.effect
  have hv' : t.member w.groupId w.userId = some (g.name, v) := by
    rw [heffect.member, if_neg fun hand => hne hand.1]
    exact hv
  obtain ⟨g', hg', -, hname'⟩ := member_eq_some.mp hv'
  obtain ⟨hmem', hid'⟩ := findGroup_mem hg'
  have hsame := heffect.wellFormed.names.eq hmem' (findGroup_mem h.found).1 hname'
  exact hne (hid' ▸ congrArg Group.id hsame)

/-- The users that are sent to the joining client are the active ones. -/
theorem Joins.active (hs : s.Consistent) (h : Joins s t client token r response g u)
    (hone : OneUser t.member) (hclient : client.id ≠ kAooIdInvalid) :
    ∃ ps : List PeerJoin,
      g.users.flatMap (s.joinMessages g u client client.id) = ps.map .peerJoin ∧
      (∀ p ∈ ps, p.groupName = g.name ∧ p.groupId = g.id) ∧ (ps.map PeerJoin.userId).Nodup ∧
      ∀ v, v ∈ ps.map PeerJoin.userId ↔ Active s.member g.id v := by
  obtain ⟨s₀, heffect, -⟩ := h.effect
  have hwf := heffect.wellFormed.wellFormed g (findGroup_mem h.found).1
  have hold : ∀ peer ∈ g.users, peer.id ≠ u.id →
      s.member g.id peer.id = some (g.name, peer) := by
    intro peer hpeer hne
    rcases (h.users peer).mp hpeer with heq | hmember
    · exact absurd (congrArg User.id heq) hne
    · exact hmember
  obtain ⟨ps, heq, hnames, hids⟩ := joinMessages_joiner s g u client
    fun (peer : User) (hpeer : peer ∈ g.users) hne hactive => by
      have hpid : peer.client ≠ kAooIdInvalid := of_decide_eq_true hactive
      have hlisted := (hs.linked peer.client hpid g.id peer.id).mpr
        ⟨g.name, peer, hold peer hpeer hne, rfl⟩
      cases hother : s.findClient peer.client with
      | none =>
        rw [links, hother] at hlisted
        cases hlisted
      | some other =>
        refine ⟨other, rfl, fun heq => ?_⟩
        have hpclient : peer.client = client.id := (findClient_id hother).symm.trans heq
        exact h.outside hone hclient g.name peer.id ⟨peer, hold peer hpeer hne, hpclient⟩
  refine ⟨ps, heq, hnames, ?_, fun v => ?_⟩
  · rw [hids]
    exact List.Nodup.sublist (List.Sublist.map _ List.filter_sublist) hwf.ids
  · rw [hids, List.mem_map]
    constructor
    · rintro ⟨peer, hpeer, hpid⟩
      obtain ⟨hmem, hboth⟩ := List.mem_filter.mp hpeer
      obtain ⟨hne, hactive⟩ := of_decide_eq_true hboth
      subst hpid
      exact ⟨g.name, peer, hold peer hmem hne, hactive⟩
    · rintro ⟨n, w, hw, hactive⟩
      obtain ⟨-, hmem, hwid, hne⟩ := h.old hclient hw
      exact ⟨w, List.mem_filter.mpr ⟨hmem, decide_eq_true ⟨hne, hactive⟩⟩, hwid⟩

/-- **A client joins a group.** -/
theorem informs_joins (hs : s.Consistent) (h : Joins s t client token r response g u)
    (hone : OneUser t.member) (hclient : client.id ≠ kAooIdInvalid) (hname : r.groupName = g.name)
    (hid : id ≠ kAooIdInvalid)
    (hxs : id = client.id → xs = (Request.groupJoin r).awaited token) : Informs xs s t id := by
  have harrives := h.arrives hclient
  obtain ⟨s₀, heffect, hmessages⟩ := h.effect
  have hmember : t.member = _ := funext fun group => funext fun user => heffect.member group user
  cases he : s.findClient id with
  | none => exact heffect.informs_none (fun _ => hone) he
  | some e =>
  by_cases heq : id = client.id
  · subst heq
    obtain ⟨ps, hps, hnames, hnodup, hall⟩ := h.active hs hone hclient
    refine heffect.informs (fun _ => hmember ▸ hone)
      (.groupJoin token (s₀.joinReply g u response) :: ps.map .peerJoin) (fun e _ => ?_)
      (fun x hx token' htoken => ?_) fun c hc hview hstate => ?_
    · rw [joined, hmessages, hps, if_pos rfl]
      rfl
    · rcases List.mem_cons.mp hx with rfl | hx
      · injection htoken with htoken
        rw [hxs rfl, ← htoken]
        exact List.mem_singleton.mpr rfl
      · obtain ⟨p, -, rfl⟩ := List.mem_map.mp hx
        cases htoken
    · rw [← hmember]
      rw [hxs rfl] at hc
      obtain ⟨cmd, hfits, hp⟩ := hc.pending
      have hopen := Client.open_of_read hstate
      cases cmd with
      | groupJoin q =>
        rw [← List.singleton_append, Client.read_append, Client.read_response rfl hopen hp]
          at hstate ⊢
        have hopen' := Client.open_of_read hstate
        rw [Client.read_peerJoins hopen']
        rw [Client.handleResponse, Client.joinGroup_pendingRequests]
        have hreply : (s₀.joinReply g u response).groupId = g.id ∧
            (s₀.joinReply g u response).userId = u.id := ⟨rfl, rfl⟩
        generalize Keyed.remove Prod.fst token _ = pending
        have hview' : Client.View s.member client.id { c with pendingRequests := pending } :=
          hview.congr rfl rfl
        exact hview'.joinGroup harrives h.owner (h.outside hone hclient)
          ⟨hfits.trans hname, hreply⟩ (h.unknown hone hclient hview') hnames hnodup hall
      | groupLeave | groupUpdate | userUpdate | custom => exact absurd hfits (by exact fun h => h)
  · have hms : g.users.flatMap (s.joinMessages g u client id) =
        if ∃ peer ∈ g.users, peer.id ≠ u.id ∧ peer.client = id then
          [peerJoinMessage g u client] else [] := by
      have hwf := heffect.wellFormed.wellFormed g (findGroup_mem h.found).1
      rw [← Keyed.flatMap_single (List.Nodup.of_map _ hwf.ids) fun x hx y hy hpx hpy =>
        hone.eq heffect.wellFormed h.found hid hx hy hpx.2 hpy.2]
      exact List.flatMap_congr fun peer _ => joinMessages_member he hid heq peer
    refine heffect.informs (fun _ => hmember ▸ hone)
      (g.users.flatMap (s.joinMessages g u client id)) (fun e _ => ?_)
      (fun x hx token' htoken => ?_) fun c hc hview hstate => ?_
    · rw [joined, hmessages, if_neg heq]
      rfl
    · rw [hms] at hx
      split at hx
      next =>
        rw [List.mem_singleton.mp hx] at htoken
        cases htoken
      next => cases hx
    · rw [← hmember]
      rw [hms] at hstate ⊢
      have hother : u.client ≠ id := fun hback => heq (hback.symm.trans h.owner)
      by_cases hex : ∃ peer ∈ g.users, peer.id ≠ u.id ∧ peer.client = id
      · rw [if_pos hex] at hstate ⊢
        obtain ⟨peer, hpeer, hne, hpclient⟩ := hex
        have hpmember : s.member g.id peer.id = some (g.name, peer) := by
          rcases (h.users peer).mp hpeer with hsame | hmember
          · exact absurd (congrArg User.id hsame) hne
          · exact hmember
        have hopen := Client.open_of_read hstate
        rw [peerJoinMessage, show ∀ p : PeerJoin, [ClientMessage.peerJoin p] = [p].map .peerJoin from
          fun _ => rfl, Client.read_peerJoins hopen]
        exact hview.peerJoin harrives hother ⟨peer, hpmember, hpclient⟩ ⟨rfl, rfl, rfl⟩
      · rw [if_neg hex]
        have hnone : ∀ n own, ¬ Owns s.member id n g.id own := by
          rintro n own ⟨v, hv, hvclient⟩
          obtain ⟨-, hmem, -, hne⟩ := h.old hclient hv
          exact hex ⟨v, hmem, hne, hvclient⟩
        refine hview.elsewhere (fun g' v hg' => harrives.other fun hand => hg' hand.1) hnone
          fun n own hown => ?_
        · obtain ⟨v, hv, hvclient⟩ := hown
          rw [harrives.added] at hv
          split at hv
          next =>
            injection hv with hv
            exact hother ((Prod.mk.inj hv).2 ▸ hvclient)
          next => exact hnone n own ⟨v, hv, hvclient⟩

/-! ## Requests -/

/-- A group id stands for a name: the group with this id has the name, if there is one, and
no other will get the id. -/
def Known (s : Server) (group : Int) (name : String) : Prop :=
  group < s.nextGroupId ∧ ∀ g, s.findGroup group = some g → g.name = name

theorem Known.keeps {group : Int} {name : String} (h : s.Known group name)
    (hkeeps : KeepsNames s t) : t.Known group name := by
  refine ⟨Int.lt_of_lt_of_le h.1 hkeeps.next, fun g hg => ?_⟩
  rcases hkeeps.name group g hg with hnew | ⟨g₀, hg₀, hname⟩
  · exact absurd h.1 (Int.not_lt.mpr hnew)
  · rw [← hname]
    exact h.2 g₀ hg₀

/-- The join passed the checks at some time: its group has the name in the request. -/
theorem informs_doGroupJoin (hs : s.Consistent) (hclient : client.id ≠ kAooIdInvalid)
    (hone : OneUser (s.doGroupJoin client token r response).member) (hr : s.CreatesUser r)
    (hknown : s.Known r.groupId r.groupName) (hid : id ≠ kAooIdInvalid)
    (hxs : id = client.id → xs = (Request.groupJoin r).awaited token) :
    Informs xs s (s.doGroupJoin client token r response) id := by
  rcases doGroupJoin_cases hs.toWellFormed hclient token response hr with ⟨e, h⟩ | ⟨g, u, h⟩
  · refine h.informs_response (.refl _) [] (fun _ h => absurd h List.not_mem_nil) client.id
      (fun _ _ => rfl) fun heq => ⟨Client.harmless_error xs _ token e _ _, fun token' htoken => ?_⟩
    injection htoken with htoken
    rw [hxs heq, ← htoken]
    exact List.mem_singleton.mpr rfl
  · refine informs_joins hs h hone hclient ?_ hid hxs
    rcases h.source with ⟨g₀, hg₀, -, hname⟩ | ⟨hname, -⟩
    · rw [hname]
      exact (hknown.2 g₀ hg₀).symm
    · exact hname.symm

/-- The response to an update or a custom request. -/
theorem harmless_fits {q : Request} {x : ClientMessage} (hq : ∀ cmd, q.Fits cmd → ∀ c : Client,
      (c.handleResponse cmd x).groups = c.groups ∧ (c.handleResponse cmd x).peers = c.peers)
    (hx : x.token? = some token) (hxs : xs = [(token, q.Fits)]) :
    Client.Harmless xs x := by
  refine Client.harmless_response hx fun c cmd hc hp _ => hq cmd ?_ c
  rw [hxs] at hc
  obtain ⟨cmd', hfits, hp'⟩ := hc.pending
  rw [hp] at hp'
  injection hp' with hp'
  exact hp' ▸ hfits

theorem silent_sendAll {us : List User} {m : User → ClientMessage} (hm : ∀ v, (m v).Silent) :
    ∀ x ∈ us.flatMap (fun v => if id = v.client then [m v] else []), x.Silent := by
  intro x hx
  obtain ⟨v, -, hx⟩ := List.mem_flatMap.mp hx
  split at hx
  next =>
    rw [List.mem_singleton.mp hx]
    exact hm v
  next => cases hx

theorem informs_doGroupUpdate (hs : s.WellFormed) (group : Int) (md md' : AooData)
    (hxs : id = client.id → xs = (Request.groupUpdate group md').awaited token) :
    Informs xs s (s.doGroupUpdate client token group md) id := by
  unfold doGroupUpdate
  split
  next => exact .refl s id xs
  next g hg =>
    obtain ⟨-, rfl⟩ := findGroup_mem hg
    split
    next => exact .refl s id xs
    next v hv =>
      have h := ((effect_groupMetadata hs hg (some md)).sends (sends_sendAll _
        (g.users.filter fun p => p.client ≠ client.id) fun _ =>
          .groupChanged g.id v.id (some md))).sends
            (sends_send _ client.id (.groupUpdate token (some md)))
      refine h.informs_response (.refl _) _ (silent_sendAll fun _ => .groupChanged ..) client.id
        (fun e _ => List.append_assoc ..) fun heq => ⟨harmless_fits (fun cmd hfits c => ?_) rfl
          (hxs heq), fun token' htoken => ?_⟩
      · cases cmd with
        | groupUpdate => exact ⟨rfl, rfl⟩
        | groupJoin | groupLeave | userUpdate | custom => exact absurd hfits (by exact fun h => h)
      · injection htoken with htoken
        rw [hxs heq, ← htoken]
        exact List.mem_singleton.mpr rfl

theorem informs_doUserUpdate (hs : s.WellFormed) (group user : Int) (md md' : AooData)
    (hxs : id = client.id → xs = (Request.userUpdate group user md').awaited token) :
    Informs xs s (s.doUserUpdate client token group user md) id := by
  unfold doUserUpdate
  split
  next => exact .refl s id xs
  next g hg =>
    obtain ⟨-, rfl⟩ := findGroup_mem hg
    split
    next => exact .refl s id xs
    next v hv =>
      obtain ⟨m, hmeta, hm⟩ := effect_userMetadata hs hg v.id (some md)
      have h := (hmeta.sends (sends_sendAll _ (g.users.filter fun p => p.id ≠ v.id) fun _ =>
        .peerChanged v.group v.id (some md))).sends
          (sends_send _ client.id (.userUpdate token (some md)))
      refine h.informs_response hm _ (silent_sendAll fun _ => .peerChanged ..) client.id
        (fun e _ => List.append_assoc ..) fun heq => ⟨harmless_fits (fun cmd hfits c => ?_) rfl
          (hxs heq), fun token' htoken => ?_⟩
      · cases cmd with
        | userUpdate => exact ⟨rfl, rfl⟩
        | groupJoin | groupLeave | groupUpdate | custom => exact absurd hfits (by exact fun h => h)
      · injection htoken with htoken
        rw [hxs heq, ← htoken]
        exact List.mem_singleton.mpr rfl

theorem informs_custom (hs : s.WellFormed) (flags flags' : Nat) (data data' : AooData)
    (hxs : id = client.id → xs = (Request.custom flags' data').awaited token) :
    Informs xs s (s.send client.id (.request token flags data)) id := by
  refine (Updates.effect (sends_send s client.id _) hs).informs_response (.refl _) []
    (fun _ h => absurd h List.not_mem_nil) client.id (fun _ _ => rfl) fun heq =>
      ⟨harmless_fits (fun cmd hfits c => ?_) rfl (hxs heq), fun token' htoken => ?_⟩
  · cases cmd with
    | custom => exact ⟨rfl, rfl⟩
    | groupJoin | groupLeave | groupUpdate | userUpdate => exact absurd hfits (by exact fun h => h)
  · injection htoken with htoken
    rw [hxs heq, ← htoken]
    exact List.mem_singleton.mpr rfl

/-- **A request is carried out.** -/
theorem informs_perform (hs : s.Consistent) (hone : OneUser s.member)
    (hclient : client.id ≠ kAooIdInvalid) {q : Request} {answer : Response}
    (hjoin : ∀ r, q = .groupJoin r → s.CreatesUser r ∧ s.Known r.groupId r.groupName ∧
      OneUser (s.perform client token q answer).member)
    (hid : id ≠ kAooIdInvalid) (hxs : id = client.id → xs = q.awaited token) :
    Informs xs s (s.perform client token q answer) id := by
  revert hjoin
  unfold perform
  split
  next => exact fun _ => informs_doLogin hs.toWellFormed ..
  next r response =>
    intro hjoin
    obtain ⟨hcreates, hknown, hone'⟩ := hjoin r rfl
    exact informs_doGroupJoin hs hclient hone' hcreates hknown hid hxs
  next => exact fun _ => informs_doGroupLeave hs.toWellFormed hone hclient hid token _ hxs
  next => exact fun _ => informs_doGroupUpdate hs.toWellFormed _ _ _ hxs
  next => exact fun _ => informs_doUserUpdate hs.toWellFormed _ _ _ _ hxs
  next => exact fun _ => informs_custom hs.toWellFormed _ _ _ _ hxs
  next => exact fun _ => .refl s id xs

/-- The addresses of a client say nothing about users. -/
theorem informs_noteAddresses (hs : s.WellFormed) (client : Int) (x : ServerMessage) :
    Informs [] s (s.noteAddresses client x) id := by
  unfold noteAddresses
  split
  next addresses =>
    have h := updates_modifyClient s client (f := fun c =>
      { c with publicAddresses := c.publicAddresses ++ addresses }) fun _ => rfl
    refine (h.effect hs).informs_nothing (fun hone => hone) (fun e _ => ?_) fun _ hview => hview
    split <;> rfl
  next => exact .refl s id []

/-! ## Messages of a client -/

/-- The request in a message, if the handler gets to see it. -/
def request (s : Server) (client : Int) (x : ServerMessage) : Option (Int × Request) :=
  match s.findClient client, x.request? with
  | some c, some (type, token) =>
    if type ≠ .login ∧ !c.active then none
    else
      match (s.noteAddresses client x).checkRequest client x with
      | .ok q => some (token, q)
      | .error _ => none
  | _, _ => none

/-- What a client awaits that has sent a message. -/
def ServerMessage.awaited : ServerMessage → List (Int × (Command → Prop))
  | .groupJoin token r => [(token, (· = .groupJoin r))]
  | .groupLeave token group => [(token, (· = .groupLeave group))]
  | .groupUpdate token group md => [(token, (· = .groupUpdate group md))]
  | .userUpdate token group md => [(token, (· = .userUpdate group md))]
  | .request token flags data => [(token, (· = .custom flags data))]
  | .login .. | .ping | .pong => []

/-- What happens to a message: it is of no use, or it has a request that is dispatched. -/
theorem handleMessage_cases (s : Server) (client : Int) (x : ServerMessage) (taken : Bool) :
    (s.request client x = none ∧
      (s.handleMessage client x taken = s ∨
        s.handleMessage client x taken = s.removeClient client ∨
        s.handleMessage client x taken = s.send client .pong ∨
        ∃ type token e, x.request? = some (type, token) ∧
          s.handleMessage client x taken =
            (s.noteAddresses client x).sendError client token type e none)) ∨
    ∃ c type token q, s.findClient client = some c ∧ x.request? = some (type, token) ∧
      s.request client x = some (token, q) ∧ (type ≠ .login → c.active = true) ∧
      (s.noteAddresses client x).checkRequest client x = .ok q ∧
      s.handleMessage client x taken = (s.noteAddresses client x).dispatch c token q taken := by
  unfold handleMessage request
  cases hc : s.findClient client with
  | none => exact .inl ⟨rfl, .inl rfl⟩
  | some c =>
    cases hx : x.request? with
    | none =>
      refine .inl ⟨rfl, ?_⟩
      simp only
      split
      next => exact .inr (.inl rfl)
      next =>
        split
        next => exact .inr (.inr (.inl rfl))
        next => exact .inl rfl
    | some p =>
      obtain ⟨type, token⟩ := p
      simp only
      split
      next => exact .inl ⟨rfl, .inr (.inl rfl)⟩
      next hlogin =>
        cases hcheck : (s.noteAddresses client x).checkRequest client x with
        | error e => exact .inl ⟨rfl, .inr (.inr (.inr ⟨type, token, e, rfl, rfl⟩))⟩
        | ok q =>
          refine .inr ⟨c, type, token, q, rfl, rfl, rfl, fun hne => ?_, rfl, rfl⟩
          by_contra hinactive
          rw [Bool.not_eq_true] at hinactive
          exact hlogin ⟨hne, by rw [hinactive]; rfl⟩

/-- The group of a join that passes the checks has the name in the request, and the user
is a new one or has no client. -/
theorem checkGroupJoin_ok (hs : s.WellFormed) {q r : GroupJoinRequest}
    (h : s.checkGroupJoin q = .ok r) :
    r.groupName = q.groupName ∧ s.Known r.groupId r.groupName ∧
      (r.userId = kAooIdInvalid ∨
        ∃ g u, s.findGroup r.groupId = some g ∧ g.findUser r.userId = some u ∧ u.active = false) := by
  have hinvalid : s.Known kAooIdInvalid q.groupName := by
    refine ⟨Int.lt_of_lt_of_le (by decide) hs.nextGroup, fun g hg => ?_⟩
    obtain ⟨hmem, hid⟩ := findGroup_mem hg
    have hrange := (hs.groupRange g hmem).1
    rw [hid] at hrange
    exact absurd hrange (by decide)
  unfold checkGroupJoin at h
  split at h
  next g hg =>
    have hmem := Keyed.mem_of_lookup hg
    have hname : g.name = q.groupName := Keyed.key_of_lookup hg
    have hfind : s.findGroup g.id = some g := hs.groups.lookup hmem
    have hknown : s.Known g.id q.groupName := by
      refine ⟨(hs.groupRange g hmem).2, fun g' hg' => ?_⟩
      rw [hfind] at hg'
      injection hg' with hg'
      rw [← hg', hname]
    split at h
    next => cases h
    next =>
      split at h
      next u hu =>
        split at h
        next => cases h
        next hinactive =>
          split at h
          next => cases h
          next =>
            injection h with h
            subst h
            have hfindUser : g.findUser u.id = some u :=
              (hs.wellFormed g hmem).findUser (Keyed.mem_of_lookup hu)
            exact ⟨rfl, hknown, .inr ⟨g, u, hfind, hfindUser, Bool.eq_false_iff.mpr hinactive⟩⟩
      next =>
        split at h
        next => cases h
        next =>
          injection h with h
          subst h
          exact ⟨rfl, hknown, .inl rfl⟩
  next =>
    split at h
    next => cases h
    next =>
      injection h with h
      subst h
      exact ⟨rfl, hinvalid, .inl rfl⟩

/-- A client that has sent a message awaits the response to the request in it. -/
theorem awaits_checkRequest {client : Int} {x : ServerMessage} {q : Request} {type : RequestType}
    (hs : s.WellFormed) (hx : x.request? = some (type, token))
    (h : s.checkRequest client x = .ok q) :
    type = q.type ∧ (q.awaited token).map Prod.fst = x.awaited.map Prod.fst ∧
      ∀ c : Client, c.Awaits x.awaited → c.Awaits (q.awaited token) := by
  have hfits : ∀ {cmd : Command} {p : Command → Prop}, p cmd →
      ∀ c : Client, c.Awaits [(token, (· = cmd))] → c.Awaits [(token, p)] := by
    intro cmd p hp c hc y hy
    obtain ⟨cmd', hcmd', hpending⟩ := hc.pending
    rw [List.mem_singleton.mp hy]
    exact ⟨cmd', hcmd' ▸ hp, hpending⟩
  unfold checkRequest at h
  split at h
  next =>
    split at h
    next => cases h
    next =>
      split at h
      next => cases h
      next =>
        injection h with h
        injection hx with hx
        subst h
        exact ⟨(Prod.mk.inj hx).1.symm, rfl, fun c _ => nofun⟩
  next token' r =>
    cases hcheck : s.checkGroupJoin r with
    | error e =>
      rw [hcheck] at h
      cases h
    | ok r' =>
      rw [hcheck] at h
      cases h
      cases hx
      exact ⟨rfl, rfl, hfits (checkGroupJoin_ok hs hcheck).1.symm⟩
  next =>
    cases h
    cases hx
    exact ⟨rfl, rfl, hfits rfl⟩
  next token' group md =>
    cases hcheck : s.checkMember client group with
    | error e =>
      rw [hcheck] at h
      cases h
    | ok v =>
      rw [hcheck] at h
      cases h
      cases hx
      exact ⟨rfl, rfl, hfits trivial⟩
  next token' group md =>
    cases hcheck : s.checkMember client group with
    | error e =>
      rw [hcheck] at h
      cases h
    | ok v =>
      rw [hcheck] at h
      cases h
      cases hx
      exact ⟨rfl, rfl, hfits trivial⟩
  next =>
    cases h
    cases hx
    exact ⟨rfl, rfl, hfits trivial⟩
  next => cases h
  next => cases h

theorem token_mem_awaited {x : ServerMessage} {type : RequestType}
    (hx : x.request? = some (type, token)) (hne : type ≠ .login) :
    token ∈ x.awaited.map Prod.fst := by
  cases x with
  | login =>
    injection hx with hx
    exact absurd (Prod.mk.inj hx).1.symm hne
  | groupJoin | groupLeave | groupUpdate | userUpdate | request =>
    injection hx with hx
    rw [← (Prod.mk.inj hx).2]
    exact List.mem_singleton.mpr rfl
  | ping | pong => cases hx

theorem noteAddresses_member (s : Server) (client : Int) (x : ServerMessage) :
    (s.noteAddresses client x).member = s.member := by
  unfold noteAddresses
  split <;> rfl

/-- The server reads a message, and the request in it is not taken over. -/
theorem informs_handleMessage (hs : s.Consistent) (hone : OneUser s.member) {client : Int}
    {x : ServerMessage} {taken : Bool}
    (hjoin : ∀ token r, s.request client x = some (token, .groupJoin r) →
      s.CreatesUser r ∧ OneUser (s.handleMessage client x taken).member)
    (hid : id ≠ kAooIdInvalid) (htaken : taken = false ∨ s.request client x = none)
    (hxs : id = client → xs = x.awaited) : Informs xs s (s.handleMessage client x taken) id := by
  have hnote : Informs [] s (s.noteAddresses client x) id :=
    informs_noteAddresses hs.toWellFormed client x
  have hs' := hs.noteAddresses client x
  rcases handleMessage_cases s client x taken with ⟨-, hcases⟩ |
    ⟨c, type, token, q, hc, hx, hrequest, hactive, hcheck, heq⟩
  · rcases hcases with heq | heq | heq | ⟨type, token, e, hx, heq⟩
    · rw [heq]
      exact .refl s id xs
    · rw [heq]
      exact (informs_removeClient hs hone hid client).of_nil
    · rw [heq]
      exact (Updates.effect (sends_send s client .pong) hs.toWellFormed).informs_response (.refl _)
        [] (fun _ h => absurd h List.not_mem_nil) client (fun _ _ => rfl) fun _ =>
          ⟨Client.harmless_pong xs, nofun⟩
    · rw [heq]
      refine hnote.trans (informs_sendError hs'.toWellFormed client token type e none
        fun hne hclient => ?_)
      rw [hxs hclient]
      exact token_mem_awaited hx hne
  · rcases htaken with rfl | hnone
    · obtain ⟨htype, htokens, hawaits⟩ := awaits_checkRequest hs'.toWellFormed hx hcheck
      have hclient := hs.client_ne_invalid hc
      have hcid := findClient_id hc
      rw [heq] at hjoin ⊢
      refine hnote.trans ?_
      unfold dispatch at hjoin ⊢
      rw [if_neg Bool.false_ne_true] at hjoin ⊢
      split
      next response hresponse =>
        rw [hresponse] at hjoin
        -- the client that has asked waits for the reply, the others for what they waited for before
        have hperform : Informs (if id = client then q.awaited token else xs)
            (s.noteAddresses client x)
            ((s.noteAddresses client x).perform c token q response) id := by
          refine informs_perform hs' (hnote.one hone) (hcid ▸ hclient) (fun r hr => ?_) hid
            fun heq => if_pos (heq.trans hcid)
          subst hr
          obtain ⟨hcreates, hone'⟩ := hjoin token r hrequest
          refine ⟨?_, ?_, hone'⟩
          · rw [CreatesUser, noteAddresses_member]
            exact hcreates
          · obtain ⟨token', r', -, hcheck'⟩ := groupJoin_of_checkRequest hcheck
            exact (checkGroupJoin_ok hs'.toWellFormed hcheck').2.1
        split at hperform
        next heq =>
          refine hperform.mono (fun token' htoken => ?_) fun c hc => ?_
          · rw [hxs heq, ← htokens]
            exact htoken
          · rw [hxs heq] at hc
            exact hawaits c hc
        next => exact hperform
      next =>
        refine informs_sendError hs'.toWellFormed c.id token q.type .unhandledRequest none
          fun hne heq => ?_
        rw [hxs (heq.trans hcid)]
        exact token_mem_awaited hx (htype ▸ hne)
    · rw [hnone] at hrequest
      cases hrequest

/-- The request is taken over, and nothing else happens. -/
theorem informs_taken (hs : s.Consistent) {client : Int} {x : ServerMessage}
    (hrequest : (s.request client x).isSome) :
    Informs [] s (s.handleMessage client x true) id := by
  rcases handleMessage_cases s client x true with ⟨hnone, -⟩ | ⟨c, type, token, q, -, -, -, -, -, heq⟩
  · rw [hnone] at hrequest
    cases hrequest
  · rw [heq, dispatch, if_pos rfl]
    exact informs_noteAddresses hs.toWellFormed client x

/-- **The user of the server answers a request** that was taken over. -/
theorem informs_handleRequest (hs : s.Consistent) (hone : OneUser s.member) {client : Int}
    {q : Request} {result : Except (AooError × Option (Int × String)) Response}
    (hjoin : ∀ r, q = .groupJoin r → (s.findClient client).isSome → (∃ a, result = .ok a) →
      s.CreatesUser r ∧ OneUser (s.handleRequest client token q result).member)
    (hknown : ∀ r, q = .groupJoin r → s.Known r.groupId r.groupName)
    (hid : id ≠ kAooIdInvalid) (hxs : id = client → xs = q.awaited token) :
    Informs xs s (s.handleRequest client token q result) id := by
  revert hjoin
  unfold Server.handleRequest
  split
  next => exact fun _ => .refl s id xs
  next c hc =>
    have hclient := hs.client_ne_invalid hc
    have hcid := findClient_id hc
    split
    next answer =>
      intro hjoin
      refine informs_perform hs hone (hcid ▸ hclient) (fun r hr => ?_) hid
        fun heq => hxs (heq.trans hcid)
      obtain ⟨hcreates, hone'⟩ := hjoin r hr (by rw [hc]; rfl) ⟨answer, rfl⟩
      exact ⟨hcreates, hknown r hr, hone'⟩
    next e response =>
      intro _
      refine informs_sendError hs.toWellFormed client token q.type e response fun hne heq => ?_
      rw [hxs heq]
      cases q with
      | login => exact absurd rfl hne
      | groupJoin | groupLeave | groupUpdate | userUpdate | custom => exact List.mem_singleton.mpr rfl

/-! ## The interface of the server -/

/-- What the user of the server can do, and the loss of a connection. -/
def Action.isCall : Action → Bool
  | .acceptClient | .handleMessage .. | .handleRequest .. => false
  | _ => true

theorem informs_call (hs : s.Consistent) (hone : OneUser s.member) (hid : id ≠ kAooIdInvalid)
    {a : Action} (ha : a.isCall) : Informs [] s (s.step a) id := by
  cases a with
  | acceptClient | handleMessage | handleRequest => cases ha
  | removeClient client => exact informs_removeClient hs hone hid client
  | addGroup name pwd metadata relay =>
    exact informs_createGroup hs.toWellFormed name pwd metadata relay
  | removeGroup group => exact informs_deleteGroup hs.toWellFormed hone hid group
  | addUserToGroup group name pwd metadata =>
    exact informs_addUserToGroup hs.toWellFormed hid group name pwd metadata
  | removeUserFromGroup group user =>
    exact informs_removeUserFromGroup hs.toWellFormed hone hid group user
  | updateGroup group md =>
    change Informs [] s (s.updateGroup group md) id
    unfold updateGroup
    split
    next => exact .refl s id []
    next g hg =>
      obtain ⟨-, rfl⟩ := findGroup_mem hg
      have h := (effect_groupMetadata hs.toWellFormed hg (some md)).sends (sends_sendAll _ g.users
        fun _ => .groupChanged g.id kAooIdInvalid (some md))
      exact h.informs_silent (.refl _) (silent_sendAll fun _ => .groupChanged ..) fun _ _ => rfl
  | updateUser group user md =>
    change Informs [] s (s.updateUser group user md) id
    unfold updateUser
    split
    next => exact .refl s id []
    next g hg =>
      obtain ⟨-, rfl⟩ := findGroup_mem hg
      split
      next => exact .refl s id []
      next v hv =>
        obtain ⟨m, hmeta, hm⟩ := effect_userMetadata hs.toWellFormed hg v.id (some md)
        have h := hmeta.sends (sends_sendAll _ g.users fun member =>
          if member.id = v.id then .userChanged member.group member.id (some md)
          else .peerChanged member.group member.id member.metadata)
        refine h.informs_silent hm (silent_sendAll fun w => ?_) fun _ _ => rfl
        split
        next => exact .userChanged ..
        next => exact .peerChanged ..

/-! ## One user for each client -/

/-- The condition for a join: it creates its user, and the client has no user in the group
yet; or the name is taken, and it fails. -/
def JoinAllowed (s : Server) (client : Int) (r : GroupJoinRequest) : Prop :=
  ∀ g ∈ s.findGroup r.groupId, g.findUser r.userId = none ∧
    (g.findUserByClient client = none ∨ (g.findUserByName r.userName).isSome)

instance (s : Server) (client : Int) (r : GroupJoinRequest) : Decidable (s.JoinAllowed client r) :=
  inferInstanceAs (Decidable (∀ g ∈ s.findGroup r.groupId, _))

theorem JoinAllowed.createsUser {client : Int} (h : s.JoinAllowed client r) : s.CreatesUser r := by
  unfold CreatesUser member
  cases hg : s.findGroup r.groupId with
  | none => rfl
  | some g =>
    rw [Option.bind_some, (h g hg).1]
    rfl

/-- A join that is allowed gives the client its only user in the group. -/
theorem JoinAllowed.oneUser (hs : s.Consistent) (hone : OneUser s.member)
    (hclient : client.id ≠ kAooIdInvalid) (hr : s.JoinAllowed client.id r) :
    OneUser (s.doGroupJoin client token r response).member := by
  rcases doGroupJoin_cases hs.toWellFormed hclient token response hr.createsUser with
    ⟨e, h⟩ | ⟨g, u, h⟩
  · have hmember := funext fun group => funext fun user => h.member group user
    exact hmember ▸ hone
  · generalize s.doGroupJoin client token r response = t at h
    have harrives := h.arrives hclient
    have hout : ∀ n own, ¬ Owns s.member client.id n g.id own := by
      rintro n own ⟨v, hv, hvclient⟩
      obtain ⟨-, hmem, -, hne⟩ := h.old hclient hv
      rcases h.source with ⟨g₀, hg₀, hid, -⟩ | ⟨-, hempty⟩
      · obtain ⟨hmem₀, hid₀⟩ := findGroup_mem hg₀
        rcases (hr g₀ hg₀).2 with hnone | hname
        · -- The client would have a user in the group.
          rw [hid, hid₀] at hv
          obtain ⟨g', hg', hfind, -⟩ := member_eq_some.mp hv
          rw [hg₀] at hg'
          injection hg' with hg'
          subst hg'
          exact Keyed.lookup_eq_none.mp hnone v (Group.findUser_mem hfind).1 hvclient
        · -- The name is taken, so that the user was not added.
          obtain ⟨w, hw⟩ := Option.isSome_iff_exists.mp hname
          have hwname : w.name = r.userName := Keyed.key_of_lookup hw
          have hwfind := (hs.wellFormed g₀ hmem₀).findUser (Keyed.mem_of_lookup hw)
          have hwmember : s.member g.id w.id = some (g₀.name, w) := by
            rw [hid, hid₀]
            exact member_of_find hg₀ hwfind
          obtain ⟨-, hwmem, -, hwne⟩ := h.old hclient hwmember
          obtain ⟨s₀, heffect, -⟩ := h.effect
          have hwf := heffect.wellFormed.wellFormed g (findGroup_mem h.found).1
          have hu := (h.users u).mpr (.inl rfl)
          exact hwne (congrArg User.id (hwf.names.eq hwmem hu (hwname.trans h.userName.symm)))
      · rw [hempty] at hv
        cases hv
    intro id hid group n user n' user' hown hown'
    by_cases hnew : id = client.id ∧ group = g.id
    · -- The new user is the only one of the client.
      obtain ⟨rfl, rfl⟩ := hnew
      have heq : ∀ n user, Owns t.member client.id n g.id user → user = u.id := by
        intro n user hown
        by_contra hne
        rw [Owns, harrives.other fun hand => hne hand.2] at hown
        exact hout n user hown
      rw [heq n user hown, heq n' user' hown']
    · have hold : ∀ n user, Owns t.member id n group user → Owns s.member id n group user := by
        rintro n user ⟨v, hv, hvclient⟩
        rw [harrives.added] at hv
        split at hv
        next hand =>
          injection hv with hv
          rw [← (Prod.mk.inj hv).2, h.owner] at hvclient
          exact absurd ⟨hvclient.symm, hand.1⟩ hnew
        next => exact ⟨v, hv, hvclient⟩
      exact hone id hid group n user n' user' (hold n user hown) (hold n' user' hown')

theorem oneUser_handleMessage (hs : s.Consistent) (hone : OneUser s.member) {client : Int}
    {x : ServerMessage} (hrequest : s.request client x = some (token, .groupJoin r))
    (hr : s.JoinAllowed client r) : OneUser (s.handleMessage client x false).member := by
  rcases handleMessage_cases s client x false with ⟨hnone, -⟩ |
    ⟨c, type, token', q, hc, -, hrequest', -, hcheck, heq⟩
  · rw [hnone] at hrequest
    cases hrequest
  · rw [hrequest] at hrequest'
    injection hrequest' with hrequest'
    obtain ⟨rfl, rfl⟩ := Prod.mk.inj hrequest'
    obtain ⟨token', r', rfl, -⟩ := groupJoin_of_checkRequest hcheck
    have hcid := findClient_id hc
    rw [heq]
    exact JoinAllowed.oneUser hs hone (hcid ▸ hs.client_ne_invalid hc) (hcid ▸ hr)

theorem oneUser_handleRequest (hs : s.Consistent) (hone : OneUser s.member) {client : Int}
    (hr : s.JoinAllowed client r) (answer : Response) :
    OneUser (s.handleRequest client token (.groupJoin r) (.ok answer)).member := by
  unfold Server.handleRequest
  split
  next => exact hone
  next c hc =>
    have hcid := findClient_id hc
    cases answer with
    | groupJoin response =>
      exact JoinAllowed.oneUser hs hone (hcid ▸ hs.client_ne_invalid hc) (hcid ▸ hr)
    | login | groupLeave | groupUpdate | userUpdate | custom => exact hone

end Server

end Aoo.Net
