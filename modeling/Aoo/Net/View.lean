import Aoo.Net.Client

/-!
# What a client knows

`View m id c`: the lists of client `id` are those that fit to the users `m` of the groups.
Its memberships are the users that have its id, and its peers the other active users
of the same groups, each once.

The lemmas follow the messages: what the users of the groups are before and after somebody
has come or gone, and what becomes of the lists when the client is told.
-/

namespace Aoo.Net

open Lib

/-- The users of the groups, as in `Server.member`. -/
abbrev Members := Int → Int → Option (String × User)

/-- The user belongs to the client. -/
def Owns (m : Members) (id : Int) (n : String) (group user : Int) : Prop :=
  ∃ u, m group user = some (n, u) ∧ u.client = id

/-- The user has a client. -/
def Active (m : Members) (group user : Int) : Prop :=
  ∃ n u, m group user = some (n, u) ∧ u.active = true

theorem Owns.active {m : Members} {id : Int} (hid : id ≠ kAooIdInvalid) {n : String}
    {group user : Int} (h : Owns m id n group user) : Active m group user := by
  obtain ⟨u, hu, hclient⟩ := h
  refine ⟨n, u, hu, decide_eq_true ?_⟩
  rw [hclient]
  exact hid

theorem owns_sameClients {m m' : Members} (hm : Server.SameClients m m') {id : Int} {n : String}
    {group user : Int} : Owns m' id n group user ↔ Owns m id n group user := by
  have howns : ∀ m : Members, Owns m id n group user ↔ ∃ flags,
      ((m group user).map fun x => (x.1, x.2.client, x.2.flags)) = some (n, id, flags) := by
    intro m
    rw [Owns]
    cases m group user with
    | none => simp
    | some x =>
      obtain ⟨n', v⟩ := x
      simp
  rw [howns, howns, hm group user]

namespace Client

/-- **The lists of a client fit to the users of the groups.** -/
structure View (m : Members) (id : Int) (c : Client) : Prop where
  groups : ∀ n group user, Owns m id n group user ↔
    ∃ w ∈ c.groups, w.groupName = n ∧ w.groupId = group ∧ w.userId = user
  distinct : Keyed.Distinct GroupMembership.groupId c.groups
  peers : ∀ group user, (group, user) ∈ c.peers.map PeerArgs.key ↔
    (∃ w ∈ c.groups, w.groupId = group ∧ w.userId ≠ user) ∧ Active m group user
  once : Keyed.Distinct PeerArgs.key c.peers

variable {m m' : Members} {id : Int} {c c' : Client} {group user : Int}

theorem View.congr (h : View m id c) (hgroups : c'.groups = c.groups)
    (hpeers : c'.peers = c.peers) : View m id c' :=
  ⟨hgroups ▸ h.groups, hgroups ▸ h.distinct, by rw [hgroups, hpeers]; exact h.peers,
    hpeers ▸ h.once⟩

/-- A membership in the view is a user of the client. -/
theorem View.owns (h : View m id c) {w : GroupMembership} (hw : w ∈ c.groups) :
    Owns m id w.groupName w.groupId w.userId :=
  (h.groups _ _ _).mpr ⟨w, hw, rfl, rfl, rfl⟩

/-- The client has one user in a group. -/
theorem View.unique (h : View m id c) {n n' : String} {user' : Int}
    (hu : Owns m id n group user) (hu' : Owns m id n' group user') : user = user' := by
  obtain ⟨w, hw, -, hgroup, rfl⟩ := (h.groups _ _ _).mp hu
  obtain ⟨w', hw', -, hgroup', rfl⟩ := (h.groups _ _ _).mp hu'
  rw [h.distinct.eq hw hw' (hgroup.trans hgroup'.symm)]

/-- Something happens in a group in which the client is not. -/
theorem View.elsewhere (h : View m id c) (hm : ∀ g u, g ≠ group → m' g u = m g u)
    (hbefore : ∀ n user, ¬ Owns m id n group user)
    (hafter : ∀ n user, ¬ Owns m' id n group user) : View m' id c := by
  have hnone : ∀ w ∈ c.groups, w.groupId ≠ group :=
    fun w hw heq => hbefore _ _ (heq ▸ h.owns hw)
  refine ⟨fun n g u => ?_, h.distinct, fun g u => ?_, h.once⟩
  · by_cases hg : g = group
    · subst hg
      refine iff_of_false (hafter n u) ?_
      intro ⟨w, hw, _, hgroup, _⟩
      exact hnone w hw hgroup
    · rw [← h.groups, Owns, Owns, hm g u hg]
  · rw [h.peers]
    refine and_congr_right fun ⟨w, hw, hgroup, _⟩ => ?_
    rw [Active, Active, hm g u (hgroup ▸ hnone w hw)]

/-- The client leaves a group. -/
theorem View.leaveGroup (h : View m id c) (hm : ∀ g u, g ≠ group → m' g u = m g u)
    (hafter : ∀ n user, ¬ Owns m' id n group user) : View m' id (c.leaveGroup group) := by
  have hmem : ∀ w, w ∈ (c.leaveGroup group).groups ↔ w ∈ c.groups ∧ w.groupId ≠ group :=
    fun w => h.distinct.mem_remove
  refine ⟨fun n g u => ?_, h.distinct.remove, fun g u => ?_, ?_⟩
  · by_cases hg : g = group
    · subst hg
      refine iff_of_false (hafter n u) ?_
      intro ⟨w, hw, _, hgroup, _⟩
      exact ((hmem w).mp hw).2 hgroup
    · rw [show Owns m' id n g u ↔ Owns m id n g u by rw [Owns, Owns, hm g u hg], h.groups]
      refine exists_congr fun w => ?_
      rw [hmem]
      constructor
      · intro ⟨hw, hn, hgroup, hu⟩
        exact ⟨⟨hw, hgroup ▸ hg⟩, hn, hgroup, hu⟩
      · intro ⟨hw, hn, hgroup, hu⟩
        exact ⟨hw.1, hn, hgroup, hu⟩
  · have hfilter : (g, u) ∈ (c.leaveGroup group).peers.map PeerArgs.key ↔
        (g, u) ∈ c.peers.map PeerArgs.key ∧ g ≠ group := by
      rw [List.mem_map, List.mem_map]
      constructor
      · intro ⟨p, hp, hkey⟩
        obtain ⟨hp, hgroup⟩ := List.mem_filter.mp hp
        refine ⟨⟨p, hp, hkey⟩, ?_⟩
        rw [← (Prod.mk.inj hkey).1]
        exact of_decide_eq_true hgroup
      · intro ⟨⟨p, hp, hkey⟩, hg⟩
        refine ⟨p, List.mem_filter.mpr ⟨hp, decide_eq_true ?_⟩, hkey⟩
        rw [(Prod.mk.inj hkey).1]
        exact hg
    rw [hfilter, h.peers]
    constructor
    · intro ⟨⟨⟨w, hw, hgroup, hu⟩, hactive⟩, hg⟩
      refine ⟨⟨w, (hmem w).mpr ⟨hw, hgroup ▸ hg⟩, hgroup, hu⟩, ?_⟩
      rw [Active, hm g u hg]
      exact hactive
    · intro ⟨⟨w, hw, hgroup, hu⟩, hactive⟩
      obtain ⟨hw, hg⟩ := (hmem w).mp hw
      rw [hgroup] at hg
      refine ⟨⟨⟨w, hw, hgroup, hu⟩, ?_⟩, hg⟩
      rw [Active, hm g u hg] at hactive
      exact hactive
  · exact List.Nodup.sublist (List.Sublist.map _ List.filter_sublist) h.once

/-- A user of the groups is gone, or has no client any more. -/
structure Leaves (m m' : Members) (group user : Int) : Prop where
  other : ∀ g u, ¬ (g = group ∧ u = user) → m' g u = m g u
  gone : ∀ n u, m' group user = some (n, u) → u.client = kAooIdInvalid

theorem Leaves.not_owns (h : Leaves m m' group user) (hid : id ≠ kAooIdInvalid) (n : String) :
    ¬ Owns m' id n group user := by
  intro ⟨u, hu, hclient⟩
  exact hid (hclient.symm.trans (h.gone n u hu))

theorem Leaves.not_active (h : Leaves m m' group user) : ¬ Active m' group user := by
  intro ⟨n, u, hu, hactive⟩
  exact of_decide_eq_true hactive (h.gone n u hu)

/-- The same users belong to the client and are active. -/
theorem View.members_congr (h : View m id c) (howns : ∀ n g u, Owns m' id n g u ↔ Owns m id n g u)
    (hactive : ∀ g u, Active m' g u ↔ Active m g u) : View m' id c :=
  ⟨fun n g u => (howns n g u).trans (h.groups n g u), h.distinct,
    fun g u => (h.peers g u).trans (and_congr_right fun _ => (hactive g u).symm), h.once⟩

/-- A user without client comes or goes. -/
theorem View.inactive (h : View m id c) (hid : id ≠ kAooIdInvalid)
    (hm : ∀ g u, m' g u = m g u ∨ (¬ Active m g u ∧ ¬ Active m' g u)) : View m' id c := by
  refine h.members_congr (fun n g u => ?_) fun g u => ?_
  · rcases hm g u with heq | ⟨hin, hin'⟩
    · rw [Owns, Owns, heq]
    · exact iff_of_false (fun ho => hin' (ho.active hid)) fun ho => hin (ho.active hid)
  · rcases hm g u with heq | ⟨hin, hin'⟩
    · rw [Active, Active, heq]
    · exact iff_of_false hin' hin

/-- The users get new metadata. -/
theorem View.sameClients (h : View m id c) (hm : Server.SameClients m m') : View m' id c := by
  have hactive : ∀ (m : Members) g u, Active m g u ↔ ∃ n client flags,
      ((m g u).map fun x => (x.1, x.2.client, x.2.flags)) = some (n, client, flags) ∧
        client ≠ kAooIdInvalid := by
    intro m g u
    rw [Active]
    cases m g u with
    | none => simp
    | some x =>
      obtain ⟨n', v⟩ := x
      simp [User.active]
  refine h.members_congr (fun n g u => ?_) fun g u => ?_
  · exact owns_sameClients hm
  · rw [hactive, hactive, hm g u]

/-- A peer leaves a group of the client, and the client is told. -/
theorem View.peerLeave (h : View m id c) (hid : id ≠ kAooIdInvalid) (hl : Leaves m m' group user)
    (hactive : Active m group user) {n : String} {own : Int} (hown : Owns m id n group own)
    (hne : own ≠ user) : View m' id (c.handlePeerLeave group user) := by
  obtain ⟨w, hw, hn, hgroup, huser⟩ := (h.groups n group own).mp hown
  have hpeer : (group, user) ∈ c.peers.map PeerArgs.key :=
    (h.peers group user).mpr ⟨⟨w, hw, hgroup, huser ▸ hne⟩, hactive⟩
  obtain ⟨p, hp, hkey⟩ := List.mem_map.mp hpeer
  have hfind : Keyed.lookup PeerArgs.key (group, user) c.peers = some p :=
    hkey ▸ h.once.lookup hp
  have hmember : c.findGroupMembership group = some w := hgroup ▸ h.distinct.lookup hw
  have heq : c.handlePeerLeave group user =
      { c with peers := Keyed.remove PeerArgs.key (group, user) c.peers } := by
    unfold handlePeerLeave
    rw [hfind, hmember]
  rw [heq]
  refine ⟨fun n g u => ?_, h.distinct, fun g u => ?_, h.once.remove⟩
  · rw [← h.groups n g u]
    by_cases hgu : g = group ∧ u = user
    · obtain ⟨rfl, rfl⟩ := hgu
      exact iff_of_false (hl.not_owns hid n) fun ho => hne (h.unique hown ho)
    · rw [Owns, Owns, hl.other g u hgu]
  · have hremove : (g, u) ∈ (Keyed.remove PeerArgs.key (group, user) c.peers).map PeerArgs.key ↔
        (g, u) ∈ c.peers.map PeerArgs.key ∧ (g, u) ≠ (group, user) := by
      rw [List.mem_map, List.mem_map]
      constructor
      · intro ⟨q, hq, hqkey⟩
        obtain ⟨hq, hqne⟩ := h.once.mem_remove.mp hq
        exact ⟨⟨q, hq, hqkey⟩, hqkey ▸ hqne⟩
      · intro ⟨⟨q, hq, hqkey⟩, hqne⟩
        exact ⟨q, h.once.mem_remove.mpr ⟨hq, hqkey ▸ hqne⟩, hqkey⟩
    rw [hremove, h.peers]
    by_cases hgu : g = group ∧ u = user
    · obtain ⟨rfl, rfl⟩ := hgu
      exact iff_of_false (fun hand => hand.2 rfl) fun hand => hl.not_active hand.2
    · rw [Active, Active, hl.other g u hgu]
      exact and_iff_left fun hpair => hgu (Prod.mk.inj hpair)

/-! ## Somebody joins -/

/-- An active user comes to a group. -/
structure Arrives (m m' : Members) (group : Int) (n : String) (u : User) : Prop where
  new : m group u.id = none
  added : ∀ g v, m' g v = if g = group ∧ v = u.id then some (n, u) else m g v
  name : ∀ v n' u', m group v = some (n', u') → n' = n
  active : u.active = true

theorem Arrives.other {n : String} {u : User} (h : Arrives m m' group n u) {g v : Int}
    (hgv : ¬ (g = group ∧ v = u.id)) : m' g v = m g v := by
  rw [h.added, if_neg hgv]

theorem Arrives.at {n : String} {u : User} (h : Arrives m m' group n u) :
    m' group u.id = some (n, u) := by
  rw [h.added, if_pos ⟨rfl, rfl⟩]

/-- The client learns about a peer in one of its groups. -/
theorem handlePeerJoin_new {p : PeerJoin} {w : GroupMembership}
    (hnew : (p.groupId, p.userId) ∉ c.peers.map PeerArgs.key)
    (hw : c.findGroupMembershipByName p.groupName = some w) :
    (c.handlePeerJoin p).groups = c.groups ∧
      (c.handlePeerJoin p).peers.map PeerArgs.key =
        (p.groupId, p.userId) :: c.peers.map PeerArgs.key := by
  have hany : ¬ (c.peers.any fun q => q.key = (p.groupId, p.userId)) = true := by
    intro hany
    obtain ⟨q, hq, hkey⟩ := List.any_eq_true.mp hany
    exact hnew (of_decide_eq_true hkey ▸ List.mem_map_of_mem hq)
  unfold handlePeerJoin
  rw [if_neg hany, hw]
  exact ⟨rfl, rfl⟩

/-- The lists, if they are given by their keys. -/
theorem View.of_keys (h : View m id c) (hgroups : c'.groups = c.groups)
    {m' : Members} (howns : ∀ n g u, Owns m' id n g u ↔ Owns m id n g u)
    (hpeers : ∀ g u, (g, u) ∈ c'.peers.map PeerArgs.key ↔
      (∃ w ∈ c.groups, w.groupId = g ∧ w.userId ≠ u) ∧ Active m' g u)
    (honce : Keyed.Distinct PeerArgs.key c'.peers) : View m' id c' := by
  refine ⟨fun n g u => ?_, hgroups ▸ h.distinct, fun g u => ?_, honce⟩
  · rw [howns, hgroups]
    exact h.groups n g u
  · rw [hgroups]
    exact hpeers g u

/-- A peer joins a group of the client, and the client is told. -/
theorem View.peerJoin (h : View m id c) {n : String} {u : User} (ha : Arrives m m' group n u)
    (hne : u.client ≠ id) {own : Int} (hown : Owns m id n group own) {p : PeerJoin}
    (hp : p.groupName = n ∧ p.groupId = group ∧ p.userId = u.id) :
    View m' id (c.handlePeerJoin p) := by
  obtain ⟨w, hw, hn, hgroup, huser⟩ := (h.groups n group own).mp hown
  obtain ⟨w', hw'⟩ : ∃ w', c.findGroupMembershipByName p.groupName = some w' := by
    rw [← Option.isSome_iff_exists]
    by_contra hnone
    rw [Option.not_isSome_iff_eq_none] at hnone
    exact Keyed.lookup_eq_none.mp hnone w hw (hn.trans hp.1.symm)
  have hnot : ¬ Active m group u.id := by
    intro ⟨n', u', hsome, _⟩
    rw [ha.new] at hsome
    cases hsome
  have hnew : (p.groupId, p.userId) ∉ c.peers.map PeerArgs.key := by
    rw [hp.2.1, hp.2.2]
    exact fun hmem => hnot ((h.peers _ _).mp hmem).2
  obtain ⟨hgroups, hpeers⟩ := handlePeerJoin_new hnew hw'
  rw [hp.2.1, hp.2.2] at hpeers hnew
  have hownne : own ≠ u.id := by
    intro heq
    obtain ⟨u', hsome, -⟩ := hown
    rw [heq, ha.new] at hsome
    cases hsome
  refine h.of_keys hgroups (fun n' g v => ?_) (fun g v => ?_) ?_
  · by_cases hgv : g = group ∧ v = u.id
    · obtain ⟨rfl, rfl⟩ := hgv
      refine iff_of_false ?_ ?_
      · intro ⟨u', hsome, hclient⟩
        rw [ha.at] at hsome
        injection hsome with hsome
        exact hne ((Prod.mk.inj hsome).2 ▸ hclient)
      · intro ⟨u', hsome, _⟩
        rw [ha.new] at hsome
        cases hsome
    · rw [Owns, Owns, ha.other hgv]
  · rw [hpeers, List.mem_cons, h.peers]
    by_cases hgv : g = group ∧ v = u.id
    · obtain ⟨rfl, rfl⟩ := hgv
      exact iff_of_true (.inl rfl) ⟨⟨w, hw, hgroup, huser ▸ hownne⟩, n, u, ha.at, ha.active⟩
    · rw [Active, Active, ha.other hgv]
      exact or_iff_right fun hpair => hgv (Prod.mk.inj hpair)
  · rw [Keyed.Distinct, hpeers]
    exact List.nodup_cons.mpr ⟨hnew, h.once⟩

/-- The client learns about the peers in a group one after the other. -/
theorem foldl_handlePeerJoin {n : String} {ps : List PeerJoin}
    (hps : ∀ p ∈ ps, p.groupName = n ∧ p.groupId = group)
    (hnodup : (ps.map PeerJoin.userId).Nodup) {w : GroupMembership}
    (hw : c.findGroupMembershipByName n = some w)
    (hnew : ∀ v, (group, v) ∈ c.peers.map PeerArgs.key → v ∉ ps.map PeerJoin.userId) :
    (ps.foldl handlePeerJoin c).groups = c.groups ∧
      (ps.foldl handlePeerJoin c).peers.map PeerArgs.key =
        (ps.map fun p => (group, p.userId)).reverse ++ c.peers.map PeerArgs.key := by
  induction ps generalizing c with
  | nil => exact ⟨rfl, rfl⟩
  | cons p ps ih =>
    obtain ⟨hname, hgroup⟩ := hps p (List.mem_cons_self ..)
    obtain ⟨hfresh, hrest⟩ := List.nodup_cons.mp hnodup
    have hp : (p.groupId, p.userId) ∉ c.peers.map PeerArgs.key := by
      intro hmem
      rw [hgroup] at hmem
      exact hnew _ hmem (List.mem_cons_self ..)
    obtain ⟨hgroups, hpeers⟩ := handlePeerJoin_new hp (hname ▸ hw)
    have hw' : (c.handlePeerJoin p).findGroupMembershipByName n = some w := by
      rw [findGroupMembershipByName, hgroups]
      exact hw
    obtain ⟨ihgroups, ihpeers⟩ := ih (fun q hq => hps q (List.mem_cons_of_mem _ hq)) hrest hw'
      fun v hv => by
        rw [hpeers, List.mem_cons] at hv
        rcases hv with heq | hv
        · rw [(Prod.mk.inj heq).2]
          exact hfresh
        · exact fun hmem => hnew v hv (List.mem_cons_of_mem _ hmem)
    refine ⟨ihgroups.trans hgroups, ?_⟩
    rw [List.foldl_cons, ihpeers, hpeers, hgroup, List.map_cons, List.reverse_cons,
      List.append_assoc]
    rfl

/-- **The client joins a group**, and is told about the users that are there. -/
theorem View.joinGroup (h : View m id c) {n : String} {u : User} (ha : Arrives m m' group n u)
    (hclient : u.client = id) (hout : ∀ n' own, ¬ Owns m id n' group own)
    {r : Server.GroupJoinRequest} {reply : GroupJoinReply}
    (hr : r.groupName = n ∧ reply.groupId = group ∧ reply.userId = u.id)
    (hname : c.findGroupMembershipByName n = none) {ps : List PeerJoin}
    (hps : ∀ p ∈ ps, p.groupName = n ∧ p.groupId = group)
    (hnodup : (ps.map PeerJoin.userId).Nodup)
    (hall : ∀ v, v ∈ ps.map PeerJoin.userId ↔ Active m group v) :
    View m' id (ps.foldl handlePeerJoin (c.joinGroup r reply)) := by
  -- it was not in the group before, so it knows nobody there
  have hno : ∀ w ∈ c.groups, w.groupId ≠ group := fun w hw heq => hout _ _ (heq ▸ h.owns hw)
  have hjoin : c.joinGroup r reply =
      { c with groups := c.groups ++ [⟨n, r.userName, group, u.id⟩] } := by
    unfold Client.joinGroup
    rw [hr.1, hname, hr.2.1, hr.2.2]
  have hnone : ∀ v, (group, v) ∉ c.peers.map PeerArgs.key := by
    intro v hmem
    obtain ⟨⟨w, hw, hgroup, -⟩, -⟩ := (h.peers _ _).mp hmem
    exact hno w hw hgroup
  have hfresh : ∀ w ∈ c.groups, w.groupName ≠ n := Keyed.lookup_eq_none.mp hname
  have hfind : (c.joinGroup r reply).findGroupMembershipByName n =
      some ⟨n, r.userName, group, u.id⟩ := by
    rw [hjoin, findGroupMembershipByName, Keyed.lookup_append (by exact hfresh), if_pos rfl]
  obtain ⟨hgroups, hpeers⟩ := foldl_handlePeerJoin hps hnodup hfind fun v hv => by
    rw [hjoin] at hv
    exact absurd hv (hnone v)
  rw [hjoin] at hgroups hpeers ⊢
  generalize ps.foldl handlePeerJoin
    { c with groups := c.groups ++ [⟨n, r.userName, group, u.id⟩] } = c' at hgroups hpeers ⊢
  have hnotActive : ¬ Active m group u.id := by
    intro ⟨n', u', hsome, _⟩
    rw [ha.new] at hsome
    cases hsome
  refine ⟨fun n' g v => ?_, ?_, fun g v => ?_, ?_⟩
  · rw [hgroups]
    -- the new membership is its own, all others are as before
    by_cases hgv : g = group ∧ v = u.id
    · obtain ⟨rfl, rfl⟩ := hgv
      constructor
      · intro ⟨u', hsome, _⟩
        rw [ha.at] at hsome
        injection hsome with hsome
        exact ⟨_, List.mem_append_right _ (List.mem_singleton.mpr rfl), (Prod.mk.inj hsome).1,
          rfl, rfl⟩
      · intro ⟨w, hw, hn, hgroup, _⟩
        rcases List.mem_append.mp hw with hw | hw
        · exact absurd hgroup (hno w hw)
        · rw [← hn, List.mem_singleton.mp hw]
          exact ⟨u, ha.at, hclient⟩
    · rw [show Owns m' id n' g v ↔ Owns m id n' g v by rw [Owns, Owns, ha.other hgv], h.groups]
      constructor
      · intro ⟨w, hw, hrest⟩
        exact ⟨w, List.mem_append_left _ hw, hrest⟩
      · intro ⟨w, hw, hn, hgroup, huser⟩
        rcases List.mem_append.mp hw with hw | hw
        · exact ⟨w, hw, hn, hgroup, huser⟩
        · rw [List.mem_singleton.mp hw] at hgroup huser
          exact absurd ⟨hgroup.symm, huser.symm⟩ hgv
  · rw [hgroups]
    exact h.distinct.append hno
  · rw [hpeers, hgroups, List.mem_append, List.mem_reverse, List.mem_map]
    -- the peers of the new group are those of the messages, those of other groups stay
    by_cases hg : g = group
    · subst hg
      rw [or_iff_left (hnone v)]
      have hmem : (∃ p ∈ ps, (g, p.userId) = (g, v)) ↔ v ∈ ps.map PeerJoin.userId := by
        rw [List.mem_map]
        refine exists_congr fun p => and_congr_right fun _ => ?_
        exact ⟨fun hpair => (Prod.mk.inj hpair).2, fun heq => heq ▸ rfl⟩
      rw [hmem, hall]
      constructor
      · intro hactive
        have hv : v ≠ u.id := fun heq => hnotActive (heq ▸ hactive)
        refine ⟨⟨_, List.mem_append_right _ (List.mem_singleton.mpr rfl), rfl, hv.symm⟩, ?_⟩
        rw [Active, ha.other fun hgv => hv hgv.2]
        exact hactive
      · intro ⟨⟨w, hw, hgroup, huser⟩, hactive⟩
        rcases List.mem_append.mp hw with hw | hw
        · exact absurd hgroup (hno w hw)
        · rw [List.mem_singleton.mp hw] at huser
          rw [Active, ha.other fun hgv => huser hgv.2.symm] at hactive
          exact hactive
    · have hother : ¬ ∃ p ∈ ps, (group, p.userId) = (g, v) := by
        intro ⟨p, _, hpair⟩
        exact hg (Prod.mk.inj hpair).1.symm
      rw [or_iff_right hother, h.peers, Active, Active, ha.other fun hgv => hg hgv.1]
      refine and_congr_left fun _ => ⟨?_, ?_⟩
      · intro ⟨w, hw, hrest⟩
        exact ⟨w, List.mem_append_left _ hw, hrest⟩
      · intro ⟨w, hw, hgroup, huser⟩
        rcases List.mem_append.mp hw with hw | hw
        · exact ⟨w, hw, hgroup, huser⟩
        · rw [List.mem_singleton.mp hw] at hgroup
          exact absurd hgroup.symm hg
  · rw [Keyed.Distinct, hpeers]
    refine List.Nodup.append ?_ h.once fun key hkey hkey' => ?_
    · rw [List.nodup_reverse]
      have hmap : (ps.map fun p => (group, p.userId)) =
          (ps.map PeerJoin.userId).map fun v => (group, v) := by
        rw [List.map_map]
        rfl
      rw [hmap]
      exact hnodup.map fun a b hab => (Prod.mk.inj hab).2
    · obtain ⟨p, -, rfl⟩ := List.mem_map.mp (List.mem_reverse.mp hkey)
      exact hnone _ hkey'

end Client

end Aoo.Net
