import Aoo.Net.Agreement

/-!
# The peers of a client

A client does not get a list of the users in its groups. It hears of each that comes or goes, and
makes its list of peers from that. If all users are created by joins, and no client has two users
in a group, a step keeps the list right (`JoinedInv.step`): when the client has read everything, its
peers in a group are the other active users (`Inv.peersAgree`). That the server can send all that it
has to say is not taken for granted in `Aoo.Net.PeerLists`.

A persistent user in the group breaks this, because it never gets a client.
-/

namespace Aoo.Net

open Lib

namespace Network

variable {N : Network}

/-- All users were created by joins: those that are added by the user of the server are
persistent. -/
def AllJoined (s : Server) : Prop := ∀ g ∈ s.groups, ∀ u ∈ g.users, u.persistent = false

instance (s : Server) : Decidable (AllJoined s) :=
  inferInstanceAs (Decidable (∀ g ∈ s.groups, ∀ u ∈ g.users, u.persistent = false))

/-- Each client has at most one user in a group. -/
def OnePerGroup (s : Server) : Prop :=
  ∀ g ∈ s.groups, ∀ u ∈ g.users, ∀ v ∈ g.users, u.active = true → u.client = v.client → u = v

instance (s : Server) : Decidable (OnePerGroup s) :=
  inferInstanceAs (Decidable (∀ g ∈ s.groups, ∀ u ∈ g.users, ∀ v ∈ g.users,
    u.active = true → u.client = v.client → u = v))

/-- A client that has read everything has as its peers in a group that it belongs to the other
active users of the group, each once. -/
def PeersAgree (N : Network) : Prop :=
  ∀ k ∈ N.conns, ∀ e ∈ N.server.clients, e.id = k.id → e.stream = [] →
    k.client.state ≠ .disconnected → ∀ g ∈ N.server.groups, ∀ own ∈ g.users, own.client = k.id →
      ((k.client.peers.filter fun p => p.groupId = g.id).map PeerArgs.userId).Perm
        ((g.users.filter fun u => u.active ∧ u.client ≠ k.id).map User.id)

theorem OnePerGroup.oneUser {s : Server} (h : OnePerGroup s) : Server.OneUser s.member := by
  intro id hid group n user n' user' ⟨u, hu, hclient⟩ ⟨v, hv, hclient'⟩
  obtain ⟨g, hg, hfind, -⟩ := Server.member_eq_some.mp hu
  obtain ⟨g', hg', hfind', -⟩ := Server.member_eq_some.mp hv
  rw [hg] at hg'
  injection hg' with hg'
  subst hg'
  obtain ⟨hmem, huid⟩ := Group.findUser_mem hfind
  obtain ⟨hmem', hvid⟩ := Group.findUser_mem hfind'
  have heq := h g (Server.findGroup_mem hg).1 u hmem v hmem' (decide_eq_true (hclient ▸ hid))
    (hclient.trans hclient'.symm)
  rw [← huid, ← hvid, heq]

/-- There is no user with the invalid id. -/
theorem createsUser_invalid {s : Server} (hs : s.WellFormed) {r : Server.GroupJoinRequest}
    (hr : r.userId = kAooIdInvalid) : s.CreatesUser r := by
  unfold Server.CreatesUser
  cases hmember : s.member r.groupId r.userId with
  | none => rfl
  | some x =>
    obtain ⟨g, hg, hfind, -⟩ := Server.member_eq_some.mp hmember
    obtain ⟨hmem, hid⟩ := Group.findUser_mem hfind
    have hrange := ((hs.wellFormed g (Server.findGroup_mem hg).1).range x.2 hmem).1
    rw [hid, hr] at hrange
    exact absurd hrange (by decide)

/-- Without persistent users, a join that passes the checks is for a new user. -/
theorem userId_invalid {s : Server} (hs : s.WellFormed) (hall : AllJoined s) {client token : Int}
    {m : Server.ServerMessage} {r : Server.GroupJoinRequest}
    (h : s.request client m = some (token, .groupJoin r)) : r.userId = kAooIdInvalid := by
  rcases Server.handleMessage_cases s client m false with ⟨hnone, -⟩ |
    ⟨c, type, token', q, -, -, hrequest, -, hcheck, -⟩
  · rw [hnone] at h
    cases h
  · rw [h] at hrequest
    injection hrequest with hrequest
    obtain ⟨-, rfl⟩ := Prod.mk.inj hrequest
    obtain ⟨token'', q', rfl, hcheck'⟩ := Server.groupJoin_of_checkRequest hcheck
    obtain ⟨-, -, hnew | ⟨g, u, hg, hu, hinactive⟩⟩ := Server.checkGroupJoin_ok hs hcheck'
    · exact hnew
    · obtain ⟨hgmem, -⟩ := Server.findGroup_mem hg
      obtain ⟨humem, -⟩ := Group.findUser_mem hu
      rcases (hs.wellFormed g hgmem).present u humem with hactive | hpersistent
      · rw [hinactive] at hactive
        cases hactive
      · rw [hall g hgmem u humem] at hpersistent
        cases hpersistent

/-- The invariant of a system in which all users are created by joins. -/
structure JoinedInv (N : Network) : Prop extends N.Inv where
  new : ∀ x ∈ N.taken, ∀ r, x.2.2 = .groupJoin r → r.userId = kAooIdInvalid

theorem JoinedInv.step (h : N.JoinedInv) (a : Action) (hall : AllJoined N.server)
    (hone : OnePerGroup (N.step a).server) : (N.step a).JoinedInv := by
  refine ⟨h.toInv.step a fun j hj => ⟨?_, hone.oneUser⟩, fun x hx r hr => ?_⟩
  · refine createsUser_invalid h.server.toWellFormed ?_
    obtain ⟨id', r⟩ := j
    unfold Action.join at hj
    split at hj
    next id =>
      obtain ⟨m, -, hjoin⟩ := Option.bind_eq_some_iff.mp hj
      obtain ⟨-, token, hrequest⟩ := join_eq_some hjoin
      exact userId_invalid h.server.toWellFormed hall hrequest
    next i answer =>
      obtain ⟨⟨id, token, q⟩, hi, hjoin⟩ := Option.bind_eq_some_iff.mp hj
      split at hjoin
      next =>
        obtain ⟨-, token', heq⟩ := join_eq_some hjoin
        injection heq with heq
        exact h.new _ (List.mem_of_getElem? hi) r (Prod.mk.inj heq).2
      next => cases hjoin
    next => cases hj
  · -- A request is taken over when it is read.
    have hold : x ∈ N.taken ∨ ∃ m, N.server.request x.1 m = some x.2 := by
      cases a with
      | connect | perform | close => exact .inl hx
      | call a =>
        rw [Network.step] at hx
        split at hx
        next => exact .inl hx
        next => exact .inl hx
      | deliver id =>
        rw [Network.step] at hx
        split at hx
        next =>
          split at hx
          next => exact .inl hx
          next => exact .inl hx
        next => exact .inl hx
      | receive id taken =>
        rw [Network.step] at hx
        split at hx
        next => exact .inl hx
        next k hk =>
          split at hx
          next => exact .inl hx
          next m rest _ =>
            rcases List.mem_append.mp hx with hx | hx
            · exact .inl hx
            · split at hx
              next =>
                obtain ⟨y, hy, heq⟩ := Option.map_eq_some_iff.mp (Option.mem_toList.mp hx)
                exact .inr ⟨m, by rw [← heq]; exact hy⟩
              next => exact absurd hx List.not_mem_nil
      | handleRequest i result =>
        rw [Network.step] at hx
        split at hx
        next => exact .inl hx
        next => exact .inl (List.mem_of_mem_eraseIdx hx)
    rcases hold with hold | ⟨m, hm⟩
    · exact h.new x hold r hr
    · obtain ⟨id, token, q⟩ := x
      obtain rfl : q = .groupJoin r := hr
      exact userId_invalid h.server.toWellFormed hall hm

/-- The peers of a client that knows its groups. -/
theorem Inv.peers_perm (h : N.Inv) {k : Conn}
    (hview : Client.View N.server.member k.id k.client) (hid : k.id ≠ kAooIdInvalid) {g : Group}
    (hg : g ∈ N.server.groups) {own : User} (hown : own ∈ g.users) (hclient : own.client = k.id) :
    ((k.client.peers.filter fun p => p.groupId = g.id).map PeerArgs.userId).Perm
      ((g.users.filter fun u => u.active ∧ u.client ≠ k.id).map User.id) := by
  have hs := h.server.toWellFormed
  have hwf := hs.wellFormed g hg
  have hfind : N.server.findGroup g.id = some g := hs.groups.lookup hg
  have hself : Owns N.server.member k.id g.name g.id own.id :=
    (Server.owns_iff hs hfind).mpr ⟨rfl, own, hown, rfl, hclient⟩
  refine (List.perm_ext_iff_of_nodup ?_ ?_).mpr fun v => ?_
  · -- In one group the peers have different ids.
    have hkeys : ((k.client.peers.filter fun p => p.groupId = g.id).map PeerArgs.userId).map
        (fun v => (g.id, v)) = (k.client.peers.filter fun p => p.groupId = g.id).map PeerArgs.key := by
      rw [List.map_map]
      refine List.map_congr_left fun p hp => ?_
      rw [PeerArgs.key, of_decide_eq_true (List.mem_filter.mp hp).2]
      rfl
    refine List.Nodup.of_map (fun v => (g.id, v)) ?_
    rw [hkeys]
    exact List.Nodup.sublist (List.Sublist.map _ List.filter_sublist) hview.once
  · exact List.Nodup.sublist (List.Sublist.map _ List.filter_sublist) hwf.ids
  · have hleft : v ∈ (k.client.peers.filter fun p => p.groupId = g.id).map PeerArgs.userId ↔
        (g.id, v) ∈ k.client.peers.map PeerArgs.key := by
      rw [List.mem_map, List.mem_map]
      constructor
      · intro ⟨p, hp, hv⟩
        obtain ⟨hmem, hgroup⟩ := List.mem_filter.mp hp
        exact ⟨p, hmem, by rw [PeerArgs.key, of_decide_eq_true hgroup, hv]⟩
      · intro ⟨p, hp, hkey⟩
        obtain ⟨hgroup, hv⟩ := Prod.mk.inj hkey
        exact ⟨p, List.mem_filter.mpr ⟨hp, decide_eq_true hgroup⟩, hv⟩
    rw [hleft, hview.peers, List.mem_map]
    constructor
    · intro ⟨⟨w, hw, hgroup, huser⟩, n, u, hu, hactive⟩
      have hwown := hview.unique hself (hgroup ▸ hview.owns hw)
      obtain ⟨g', hg', hfindUser, -⟩ := Server.member_eq_some.mp hu
      rw [hfind] at hg'
      injection hg' with hg'
      subst hg'
      obtain ⟨hmem, huid⟩ := Group.findUser_mem hfindUser
      refine ⟨u, List.mem_filter.mpr ⟨hmem, decide_eq_true ⟨hactive, fun heq => ?_⟩⟩, huid⟩
      -- A user of the client itself would be the one that is not listed.
      have hsame := h.one.eq hs hfind hid hmem hown heq hclient
      exact huser (hwown.symm.trans (hsame ▸ huid))
    · intro ⟨u, hu, huid⟩
      obtain ⟨hmem, hboth⟩ := List.mem_filter.mp hu
      obtain ⟨hactive, hne⟩ := of_decide_eq_true hboth
      obtain ⟨w, hw, -, hgroup, huser⟩ := (hview.groups _ _ _).mp hself
      subst huid
      refine ⟨⟨w, hw, hgroup, fun heq => hne ?_⟩, g.name, u,
        Server.member_of_find hfind (hwf.findUser hmem), hactive⟩
      rw [← hwf.ids.eq hown hmem (huser.symm.trans heq)]
      exact hclient

/-- **A client that has read everything has the right peers.** -/
theorem Inv.peersAgree (h : N.Inv) : N.PeersAgree := by
  intro k hk e he hid hstream hopen g hg own hown hclient
  have hfind : N.server.findClient k.id = some e := hid ▸ h.server.clients.lookup he
  exact h.peers_perm (h.view hk hfind hstream hopen) (h.id_ne_invalid hk) hg hown hclient

end Network

end Aoo.Net
