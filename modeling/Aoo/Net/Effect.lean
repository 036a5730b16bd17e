import Aoo.Net.Server

/-!
# What the operations of the server do

Each operation is described by what is found in the server afterwards: for the clients in
`Updates`, and in `Effect` also for the users of the groups (`member`). The descriptions say
everything, the messages that are sent included, so that no later proof has to look into an
operation again.

Ids and names stay unique (`WellFormed`).
-/

namespace Aoo.Net

open Lib

/-- A client with more messages on its way. -/
def ClientEndpoint.told (c : ClientEndpoint) (ms : List ClientMessage) : ClientEndpoint :=
  { c with stream := c.stream ++ ms }

/-- No message, no change. -/
theorem ClientEndpoint.told_nil (c : ClientEndpoint) : c.told [] = c := by
  rw [told, List.append_nil]

namespace Server

/-! ## Clients -/

/-- Only the clients are changed, and each by a function of its own. -/
structure Updates (s t : Server) (f : Int → ClientEndpoint → ClientEndpoint) : Prop where
  rest : t = { s with clients := t.clients }
  ids : t.clients.map ClientEndpoint.id = s.clients.map ClientEndpoint.id
  find : ∀ id, t.findClient id = (s.findClient id).map (f id)

/-- Nothing is changed. -/
theorem Updates.refl (s : Server) : Updates s s fun _ c => c :=
  ⟨rfl, rfl, fun _ => Option.map_id'.symm⟩

/-- Two updates, one after the other, are one. -/
theorem Updates.trans {s t u : Server} {f f' : Int → ClientEndpoint → ClientEndpoint}
    (h : Updates s t f) (h' : Updates t u f') : Updates s u fun id c => f' id (f id c) := by
  refine ⟨?_, h'.ids.trans h.ids, fun id => ?_⟩
  · rw [h'.rest, h.rest]
  · rw [h'.find, h.find, Option.map_map]
    rfl

/-- The groups stay as they are. -/
theorem Updates.groups {s t : Server} {f : Int → ClientEndpoint → ClientEndpoint}
    (h : Updates s t f) : t.groups = s.groups := by
  rw [h.rest]

/-- Only what the update does to known clients matters. -/
theorem Updates.congr {s t : Server} {f f' : Int → ClientEndpoint → ClientEndpoint}
    (h : Updates s t f) (hf : ∀ id c, s.findClient id = some c → f id c = f' id c) :
    Updates s t f' := by
  refine ⟨h.rest, h.ids, fun id => ?_⟩
  rw [h.find]
  cases hc : s.findClient id with
  | none => rfl
  | some c => exact congrArg some (hf id c hc)

/-- One client is changed, and it keeps its id. -/
theorem updates_modifyClient (s : Server) (id : Int) {f : ClientEndpoint → ClientEndpoint}
    (hf : ∀ c, (f c).id = c.id) :
    Updates s (s.modifyClient id f) fun id' c => if id' = id then f c else c := by
  refine ⟨rfl, Keyed.map_adjust fun c _ _ => hf c, fun id' => ?_⟩
  rw [findClient, modifyClient, Keyed.lookup_adjust fun c _ _ => hf c]
  split
  next heq =>
    subst heq
    rfl
  next => exact Option.map_id'.symm

/-- A client is found under its own id. -/
theorem findClient_id {s : Server} {id : Int} {c : ClientEndpoint} (h : s.findClient id = some c) :
    c.id = id :=
  Keyed.key_of_lookup h

/-! ## Messages -/

/-- Messages are sent, and nothing else happens. -/
abbrev Sends (s t : Server) (out : Int → List ClientMessage) : Prop :=
  Updates s t fun id c => c.told (out id)

/-- No message is sent. -/
theorem Sends.refl (s : Server) : Sends s s fun _ => [] :=
  (Updates.refl s).congr fun _ c _ => c.told_nil.symm

/-- Messages arrive in the order in which they were sent. -/
theorem Sends.trans {s t u : Server} {out out' : Int → List ClientMessage} (h : Sends s t out)
    (h' : Sends t u out') : Sends s u fun id => out id ++ out' id :=
  (Updates.trans h h').congr fun _ _ _ => by
    rw [ClientEndpoint.told, ClientEndpoint.told, ClientEndpoint.told, List.append_assoc]

/-- A message goes to one client. -/
theorem sends_send (s : Server) (client : Int) (m : ClientMessage) :
    Sends s (s.send client m) fun id => if id = client then [m] else [] := by
  have h := updates_modifyClient s client (f := fun c => c.told [m]) fun _ => rfl
  refine Updates.congr h fun id c _ => ?_
  beta_reduce
  split
  next => rfl
  next => exact (c.told_nil).symm

/-- Nobody gets the messages for a client that does not exist. -/
theorem sends_nobody {s : Server} {client : Int} (h : s.findClient client = none)
    (m : ClientMessage) : Sends s s fun id => if id = client then [m] else [] := by
  refine (Sends.refl s).congr fun id c hc => ?_
  beta_reduce
  split
  next heq =>
    rw [heq, h] at hc
    cases hc
  next => rfl

/-- A loop over users, in which each round sends messages. -/
theorem sends_foldl {s : Server} {f : Server → User → Server}
    {o : User → Int → List ClientMessage} {us : List User}
    (hstep : ∀ t u, (∃ o, Sends s t o) → Sends t (f t u) (o u)) :
    Sends s (us.foldl f s) fun id => us.flatMap (o · id) := by
  suffices hgen : ∀ t, (∃ o, Sends s t o) →
      Sends t (us.foldl f t) fun id => us.flatMap (o · id) from hgen s ⟨_, .refl s⟩
  induction us with
  | nil => exact fun t _ => .refl t
  | cons u us ih =>
    intro t ht
    have hu := hstep t u ht
    obtain ⟨o', ho'⟩ := ht
    exact hu.trans (ih _ ⟨_, ho'.trans hu⟩)

/-- Each user is told through its client, in the order of the list. -/
theorem sends_sendAll (s : Server) (us : List User) (m : User → ClientMessage) :
    Sends s (s.sendAll us m) fun id => us.flatMap fun u => if id = u.client then [m u] else [] := by
  refine sends_foldl fun t u _ => ?_
  split
  next c hc =>
    rw [findClient_id hc]
    exact sends_send t u.client (m u)
  next hnone => exact sends_nobody hnone (m u)

/-- All peers of a user hear that it has left. -/
theorem sends_onUserLeftGroup (s : Server) (g : Group) (u : User) :
    Sends s (s.onUserLeftGroup g u) fun id => g.users.flatMap fun peer =>
      if peer.id ≠ u.id then if id = peer.client then [.peerLeave g.id u.id] else [] else [] := by
  refine sends_foldl (o := fun peer id =>
    if peer.id ≠ u.id then if id = peer.client then [.peerLeave g.id u.id] else [] else [])
    fun t peer _ => ?_
  split
  next hne =>
    split
    next c hc =>
      rw [findClient_id hc]
      exact sends_send t peer.client _
    next hnone => exact sends_nobody hnone _
  next => exact .refl t

/-- The messages of `on_user_joined_group` for a client. -/
def joinMessages (s : Server) (g : Group) (u : User) (client : ClientEndpoint) (id : Int)
    (peer : User) : List ClientMessage :=
  if peer.id ≠ u.id ∧ peer.active then
    match s.findClient peer.client with
    | some other =>
      (if id = client.id then [peerJoinMessage g peer other] else []) ++
        if id = other.id then [peerJoinMessage g u client] else []
    | none => []
  else []

/-- A new user and each of its active peers hear of each other. -/
theorem sends_onUserJoinedGroup (s : Server) (g : Group) (u : User) (client : ClientEndpoint) :
    Sends s (s.onUserJoinedGroup g u client) fun id =>
      g.users.flatMap (s.joinMessages g u client id) := by
  refine sends_foldl (o := fun peer id => s.joinMessages g u client id peer) fun t peer ht => ?_
  obtain ⟨o, ho⟩ := ht
  simp only [joinMessages]
  split
  next =>
    -- What the messages say about the other client does not depend on what was sent to it.
    have hfind := ho.find peer.client
    cases hother : s.findClient peer.client with
    | none =>
      rw [hother, Option.map_none] at hfind
      rw [hfind]
      exact .refl t
    | some other =>
      rw [hother, Option.map_some] at hfind
      rw [hfind]
      exact (sends_send t client.id _).trans (sends_send _ other.id _)
  next => exact .refl t

/-- An error is answered only where the request expects a response. -/
theorem sends_sendError (s : Server) (client token : Int) (type : RequestType) (result : AooError)
    (response : Option (Int × String)) :
    Sends s (s.sendError client token type result response) fun id =>
      match type with
      | .login | .groupJoin | .groupLeave | .custom =>
        if id = client then
          [.error type token result (response.getD (0, "")).1 (response.getD (0, "")).2] else []
      | .groupUpdate | .userUpdate => [] := by
  cases type with
  | login => exact sends_send s client _
  | groupJoin => exact sends_send s client _
  | groupLeave => exact sends_send s client _
  | custom => exact sends_send s client _
  | groupUpdate => exact .refl s
  | userUpdate => exact .refl s

end Server

/-! ## Groups -/

/-- A user with just this flag is persistent. -/
theorem User.persistent_of_flags {u : User} (h : u.flags = kAooUserPersistent) :
    u.persistent = true := by
  rw [persistent, h]
  decide

namespace Group

/-- Ids and names of the users are unique, and the ids are those that were given out. Only
persistent users are without client. -/
structure WellFormed (g : Group) : Prop where
  ids : Keyed.Distinct User.id g.users
  names : Keyed.Distinct User.name g.users
  present : ∀ u ∈ g.users, u.active = true ∨ u.persistent = true
  range : ∀ u ∈ g.users, 0 ≤ u.id ∧ u.id < g.nextUserId
  group : ∀ u ∈ g.users, u.group = g.id
  next : 0 ≤ g.nextUserId

/-- A user is found under its own id, in the group. -/
theorem findUser_mem {g : Group} {id : Int} {u : User} (h : g.findUser id = some u) :
    u ∈ g.users ∧ u.id = id :=
  ⟨Keyed.mem_of_lookup h, Keyed.key_of_lookup h⟩

/-- Ids are unique, so each user of a group can be found. -/
theorem WellFormed.findUser {g : Group} (h : g.WellFormed) {u : User} (hu : u ∈ g.users) :
    g.findUser u.id = some u :=
  h.ids.lookup hu

/-- A group stays well-formed when a user leaves. -/
theorem WellFormed.removeUser {g : Group} (h : g.WellFormed) (id : Int) :
    (g.removeUser id).WellFormed where
  ids := h.ids.remove
  names := List.Nodup.sublist (List.Sublist.map _ List.eraseP_sublist) h.names
  present u hu := h.present u (Keyed.mem_of_mem_remove hu)
  range u hu := h.range u (Keyed.mem_of_mem_remove hu)
  group u hu := h.group u (Keyed.mem_of_mem_remove hu)
  next := h.next

/-- A user is changed, but not its id, name and group. -/
theorem WellFormed.modifyUser {g : Group} (h : g.WellFormed) (id : Int) {f : User → User}
    (hf : ∀ u, (f u).id = u.id ∧ (f u).name = u.name ∧ (f u).group = u.group)
    (hpresent : ∀ u ∈ g.users, u.id = id → (f u).active = true ∨ (f u).persistent = true) :
    (g.modifyUser id f).WellFormed := by
  have hmem : ∀ u ∈ (g.modifyUser id f).users, ∃ v ∈ g.users, u.id = v.id ∧ u.group = v.group := by
    intro u hu
    rcases Keyed.mem_adjust.mp hu with ⟨hu, -⟩ | ⟨v, hv, -, rfl⟩
    · exact ⟨u, hu, rfl, rfl⟩
    · exact ⟨v, hv, (hf v).1, (hf v).2.2⟩
  refine ⟨?_, ?_, fun u hu => ?_, fun u hu => ?_, fun u hu => ?_, h.next⟩
  · rw [Group.modifyUser, Keyed.Distinct, Keyed.map_adjust fun u _ _ => (hf u).1]
    exact h.ids
  · rw [Group.modifyUser, Keyed.Distinct, Keyed.map_adjust fun u _ _ => (hf u).2.1]
    exact h.names
  · rcases Keyed.mem_adjust.mp hu with ⟨hu, -⟩ | ⟨v, hv, hid, rfl⟩
    · exact h.present u hu
    · exact hpresent v hv hid
  · obtain ⟨v, hv, hid, -⟩ := hmem u hu
    rw [hid]
    exact h.range v hv
  · obtain ⟨v, hv, -, hgroup⟩ := hmem u hu
    rw [hgroup]
    exact h.group v hv

/-- What `get_next_user_id` does: the id is free, and only the counter changes. -/
theorem WellFormed.getNextUserId {g g' : Group} {id : Int} (h : g.WellFormed)
    (heq : g.getNextUserId = (id, g')) :
    (∃ n, g' = { g with nextUserId := n } ∧ g.nextUserId ≤ n ∧ 0 ≤ id ∧ id < n) ∧
      ∀ u ∈ g.users, u.id ≠ id := by
  unfold Group.getNextUserId at heq
  split at heq
  next i hi =>
    obtain ⟨rfl, rfl⟩ := Prod.mk.inj heq
    have hfree := List.find?_some hi
    obtain ⟨k, hk, rfl⟩ := List.mem_map.mp (List.mem_of_find?_eq_some hi)
    have hlt := List.mem_range.mp hk
    refine ⟨⟨g.nextUserId, rfl, Int.le_refl _, ?_, ?_⟩, ?_⟩
    · exact Int.natCast_nonneg k
    · have := h.next
      simp only [Int.ofNat_eq_natCast]
      omega
    · exact Keyed.lookup_eq_none.mp (Option.isNone_iff_eq_none.mp hfree)
  next =>
    obtain ⟨rfl, rfl⟩ := Prod.mk.inj heq
    have := h.next
    refine ⟨⟨g.nextUserId + 1, rfl, by omega, by omega, by omega⟩, fun u hu => ?_⟩
    have := h.range u hu
    omega

/-- Ids may be skipped. -/
theorem WellFormed.setNext {g : Group} (h : g.WellFormed) {n : Int} (hn : g.nextUserId ≤ n) :
    ({ g with nextUserId := n } : Group).WellFormed where
  ids := h.ids
  names := h.names
  present := h.present
  range u hu := ⟨(h.range u hu).1, Int.lt_of_lt_of_le (h.range u hu).2 hn⟩
  group := h.group
  next := Int.le_trans h.next hn

/-- A new user with a free id. -/
theorem WellFormed.addUser {g g' : Group} (h : g.WellFormed) {u : User}
    (heq : g.addUser u = some g') (hid : ∀ v ∈ g.users, v.id ≠ u.id)
    (hrange : 0 ≤ u.id ∧ u.id < g.nextUserId) (hgroup : u.group = g.id)
    (hpresent : u.active = true ∨ u.persistent = true) :
    g'.WellFormed ∧ g' = { g with users := g.users ++ [u] } := by
  unfold Group.addUser at heq
  split at heq
  next => cases heq
  next hnone =>
    injection heq with heq
    subst heq
    refine ⟨⟨h.ids.append hid, h.names.append (Keyed.lookup_eq_none.mp hnone), ?_, ?_, ?_, h.next⟩,
      rfl⟩
    · intro v hv
      rcases List.mem_append.mp hv with hv | hv
      · exact h.present v hv
      · rw [List.mem_singleton.mp hv]
        exact hpresent
    · intro v hv
      rcases List.mem_append.mp hv with hv | hv
      · exact h.range v hv
      · rw [List.mem_singleton.mp hv]
        exact hrange
    · intro v hv
      rcases List.mem_append.mp hv with hv | hv
      · exact h.group v hv
      · rw [List.mem_singleton.mp hv]
        exact hgroup

end Group

namespace Server

/-- Ids and names are unique, and the ids are those that were given out. -/
structure WellFormed (s : Server) : Prop where
  clients : Keyed.Distinct ClientEndpoint.id s.clients
  clientRange : ∀ id ∈ s.clients.map ClientEndpoint.id, 0 ≤ id ∧ id < s.nextClientId
  groups : Keyed.Distinct Group.id s.groups
  names : Keyed.Distinct Group.name s.groups
  groupRange : ∀ g ∈ s.groups, 0 ≤ g.id ∧ g.id < s.nextGroupId
  wellFormed : ∀ g ∈ s.groups, g.WellFormed
  nextClient : 0 ≤ s.nextClientId
  nextGroup : 0 ≤ s.nextGroupId

/-- A group is found under its own id. -/
theorem findGroup_mem {s : Server} {id : Int} {g : Group} (h : s.findGroup id = some g) :
    g ∈ s.groups ∧ g.id = id :=
  ⟨Keyed.mem_of_lookup h, Keyed.key_of_lookup h⟩

/-- No client has the invalid id. -/
theorem WellFormed.client_ne_invalid {s : Server} (h : s.WellFormed) {id : Int} {c : ClientEndpoint}
    (hc : s.findClient id = some c) : id ≠ kAooIdInvalid := by
  have hmem := List.mem_map_of_mem (f := ClientEndpoint.id) (Keyed.mem_of_lookup hc)
  have hrange := (h.clientRange _ hmem).1
  rw [findClient_id hc] at hrange
  exact fun heq => absurd (heq ▸ hrange) (by decide)

/-- Updates of clients keep the server well-formed. -/
theorem WellFormed.updates {s t : Server} {f : Int → ClientEndpoint → ClientEndpoint}
    (h : s.WellFormed) (hu : Updates s t f) : t.WellFormed := by
  rw [hu.rest]
  refine ⟨?_, ?_, h.groups, h.names, h.groupRange, h.wellFormed, h.nextClient, h.nextGroup⟩
  · rw [Keyed.Distinct, hu.ids]
    exact h.clients
  · rw [hu.ids]
    exact h.clientRange

/-- A group is replaced by another with the same id and name. -/
theorem WellFormed.modifyGroup {s : Server} (h : s.WellFormed) {id : Int} {f : Group → Group}
    (hf : ∀ g ∈ s.groups, g.id = id → (f g).id = g.id ∧ (f g).name = g.name ∧ (f g).WellFormed) :
    (s.modifyGroup id f).WellFormed := by
  have hmem : ∀ g ∈ (s.modifyGroup id f).groups,
      (∃ g₀ ∈ s.groups, g.id = g₀.id) ∧ g.WellFormed := by
    intro g hg
    rcases Keyed.mem_adjust.mp hg with ⟨hg, -⟩ | ⟨g₀, hg₀, hid, rfl⟩
    · exact ⟨⟨g, hg, rfl⟩, h.wellFormed g hg⟩
    · exact ⟨⟨g₀, hg₀, (hf g₀ hg₀ hid).1⟩, (hf g₀ hg₀ hid).2.2⟩
  refine ⟨h.clients, h.clientRange, ?_, ?_, fun g hg => ?_, fun g hg => (hmem g hg).2,
    h.nextClient, h.nextGroup⟩
  · rw [Server.modifyGroup, Keyed.Distinct, Keyed.map_adjust fun g hg hid => (hf g hg hid).1]
    exact h.groups
  · rw [Server.modifyGroup, Keyed.Distinct, Keyed.map_adjust fun g hg hid => (hf g hg hid).2.1]
    exact h.names
  · obtain ⟨g₀, hg₀, hid⟩ := (hmem g hg).1
    rw [hid]
    exact h.groupRange g₀ hg₀

/-- A changed group is found where it was, and the others as they were. -/
theorem findGroup_modifyGroup {s : Server} {id : Int} {f : Group → Group}
    (hf : ∀ g ∈ s.groups, g.id = id → (f g).id = g.id) (id' : Int) :
    (s.modifyGroup id f).findGroup id' =
      if id' = id then (s.findGroup id).map f else s.findGroup id' :=
  Keyed.lookup_adjust hf id'

/-- A server stays well-formed when a group is removed. -/
theorem WellFormed.eraseGroup {s : Server} (h : s.WellFormed) (id : Int) :
    ({ s with groups := Keyed.remove Group.id id s.groups } : Server).WellFormed where
  clients := h.clients
  clientRange := h.clientRange
  groups := h.groups.remove
  names := List.Nodup.sublist (List.Sublist.map _ List.eraseP_sublist) h.names
  groupRange g hg := h.groupRange g (Keyed.mem_of_mem_remove hg)
  wellFormed g hg := h.wellFormed g (Keyed.mem_of_mem_remove hg)
  nextClient := h.nextClient
  nextGroup := h.nextGroup

/-! ## What the operations do -/

/-- A user of a group, with the name of the group. -/
def member (s : Server) (group user : Int) : Option (String × User) :=
  (s.findGroup group).bind fun g => (g.findUser user).map fun u => (g.name, u)

/-- A member is a user of a group, under the name of the group. -/
theorem member_eq_some {s : Server} {group user : Int} {n : String} {u : User} :
    s.member group user = some (n, u) ↔
      ∃ g, s.findGroup group = some g ∧ g.findUser user = some u ∧ g.name = n := by
  unfold member
  rw [Option.bind_eq_some_iff]
  refine exists_congr fun g => and_congr_right fun _ => ?_
  rw [Option.map_eq_some_iff]
  constructor
  · intro ⟨v, hv, heq⟩
    obtain ⟨rfl, rfl⟩ := Prod.mk.inj heq
    exact ⟨hv, rfl⟩
  · intro ⟨hu, hn⟩
    exact ⟨u, hu, hn ▸ rfl⟩

theorem member_of_find {s : Server} {g : Group} {u : User} {group user : Int}
    (hg : s.findGroup group = some g) (hu : g.findUser user = some u) :
    s.member group user = some (g.name, u) :=
  member_eq_some.mpr ⟨g, hg, hu, rfl⟩

/-- Groups keep their names, and new groups have new ids. No client id is given out again. -/
structure KeepsNames (s t : Server) : Prop where
  nextClient : s.nextClientId ≤ t.nextClientId
  next : s.nextGroupId ≤ t.nextGroupId
  name : ∀ id g', t.findGroup id = some g' →
    s.nextGroupId ≤ id ∨ ∃ g, s.findGroup id = some g ∧ g.name = g'.name

/-- Names are kept over two operations. -/
theorem KeepsNames.trans {s t u : Server} (h : KeepsNames s t) (h' : KeepsNames t u) :
    KeepsNames s u := by
  refine ⟨Int.le_trans h.nextClient h'.nextClient, Int.le_trans h.next h'.next,
    fun id g'' hg'' => ?_⟩
  rcases h'.name id g'' hg'' with hnew | ⟨g', hg', hname'⟩
  · exact .inl (Int.le_trans h.next hnew)
  · rcases h.name id g' hg' with hnew | ⟨g, hg, hname⟩
    · exact .inl hnew
    · exact .inr ⟨g, hg, hname.trans hname'⟩

/-- The same groups, or some of them. -/
theorem keepsNames_of_find {s t : Server} (hclient : s.nextClientId ≤ t.nextClientId)
    (hnext : s.nextGroupId ≤ t.nextGroupId)
    (h : ∀ id g, t.findGroup id = some g → ∃ g₀, s.findGroup id = some g₀ ∧ g₀.name = g.name) :
    KeepsNames s t :=
  ⟨hclient, hnext, fun id g hg => .inr (h id g hg)⟩

/-- What an operation does to a server: to each client, and to the users of the groups. -/
structure Effect (s t : Server) (f : Int → ClientEndpoint → ClientEndpoint)
    (m : Int → Int → Option (String × User)) : Prop where
  wellFormed : t.WellFormed
  ids : t.clients.map ClientEndpoint.id = s.clients.map ClientEndpoint.id
  find : ∀ id, t.findClient id = (s.findClient id).map (f id)
  names : KeepsNames s t
  member : ∀ g u, t.member g u = m g u

/-- The effect of two operations; the users are as the second one leaves them. -/
theorem Effect.trans {s t u : Server} {f f' : Int → ClientEndpoint → ClientEndpoint}
    {m m' : Int → Int → Option (String × User)} (h : Effect s t f m) (h' : Effect t u f' m') :
    Effect s u (fun id c => f' id (f id c)) m' := by
  refine ⟨h'.wellFormed, h'.ids.trans h.ids, fun id => ?_, h.names.trans h'.names, h'.member⟩
  rw [h'.find, h.find, Option.map_map]
  rfl

/-- An update of clients has no effect on the users of the groups. -/
theorem Updates.effect {s t : Server} {f : Int → ClientEndpoint → ClientEndpoint}
    (h : Updates s t f) (hs : s.WellFormed) : Effect s t f s.member := by
  refine ⟨hs.updates h, h.ids, h.find, ?_, fun g u => ?_⟩
  · rw [h.rest]
    exact keepsNames_of_find (Int.le_refl _) (Int.le_refl _) fun _ g hg => ⟨g, hg, rfl⟩
  · rw [h.rest]
    rfl

/-- Messages are sent after an operation. -/
theorem Effect.sends {s t u : Server} {f : Int → ClientEndpoint → ClientEndpoint}
    {m : Int → Int → Option (String × User)} {o : Int → List ClientMessage} (h : Effect s t f m)
    (hsend : Sends t u o) : Effect s u (fun id c => (f id c).told (o id)) m := by
  have hsent := Updates.effect hsend h.wellFormed
  have htrans := h.trans hsent
  refine ⟨hsent.wellFormed, htrans.ids, htrans.find, htrans.names, fun g v => ?_⟩
  rw [hsent.member, h.member]

/-- A client remembers the group it has joined, once. -/
theorem updates_onGroupJoin (s : Server) (client group user : Int) :
    Updates s (s.onGroupJoin client group user) fun id c =>
      if id = client ∧ (group, user) ∉ c.groupUsers then
        { c with groupUsers := c.groupUsers ++ [(group, user)] } else c := by
  have h := updates_modifyClient s client (f := fun c =>
    if (group, user) ∈ c.groupUsers then c
    else { c with groupUsers := c.groupUsers ++ [(group, user)] }) fun c => by
      split <;> rfl
  refine h.congr fun id c _ => ?_
  by_cases hid : id = client
  · by_cases hmem : (group, user) ∈ c.groupUsers
    · simp [hid, hmem]
    · simp [hid, hmem]
  · simp [hid]

/-- A client that leaves a group. -/
def leave (group user : Int) (eject : Bool) (c : ClientEndpoint) : ClientEndpoint :=
  { c with
    stream := c.stream ++ if eject then [.groupEject group] else []
    groupUsers := c.groupUsers.erase (group, user) }

/-- A client forgets a group it has left, and is told so if it was ejected. -/
theorem updates_onGroupLeave (s : Server) (client group user : Int) (eject : Bool) :
    Updates s (s.onGroupLeave client group user eject) fun id c =>
      if id = client then leave group user eject c else c := by
  have herase : ∀ t : Server, Updates t (t.modifyClient client fun c =>
      { c with groupUsers := c.groupUsers.erase (group, user) }) _ :=
    fun t => updates_modifyClient t client fun _ => rfl
  unfold onGroupLeave
  cases eject with
  | false =>
    refine (herase s).congr fun id c _ => ?_
    split
    next => simp [leave]
    next => rfl
  | true =>
    refine (Updates.trans (sends_send s client (.groupEject group)) (herase _)).congr
      fun id c _ => ?_
    beta_reduce
    split
    next => rfl
    next => exact c.told_nil

/-- A client after all users of a group that belong to it were ejected. -/
def ejected (group : Int) (us : List User) (id : Int) (c : ClientEndpoint) : ClientEndpoint :=
  (us.filter fun u => u.client = id).foldl (fun c u => leave group u.id true c) c

/-- The client of an ejected user forgets the group and is told. -/
theorem updates_ejectUser (s : Server) (group : Int) (u : User) :
    Updates s (s.ejectUser group u) fun id c =>
      if id = u.client then leave group u.id true c else c := by
  unfold ejectUser
  split
  next client hc =>
    rw [findClient_id hc]
    exact updates_onGroupLeave s u.client group u.id true
  next hnone =>
    refine (Updates.refl s).congr fun id c hc => ?_
    split
    next heq =>
      rw [heq, hnone] at hc
      cases hc
    next => rfl

/-- All users are ejected, one after the other. -/
theorem updates_ejectAll (s : Server) (group : Int) (us : List User) :
    Updates s (us.foldl (fun s u => s.ejectUser group u) s) (ejected group us) := by
  induction us generalizing s with
  | nil => exact .refl s
  | cons u us ih =>
    refine ((updates_ejectUser s group u).trans (ih _)).congr fun id c _ => ?_
    unfold ejected
    by_cases hid : id = u.client
    · simp [hid]
    · have hne : ¬ u.client = id := fun h => hid h.symm
      simp [hid, hne]

/-- **A group is removed** with all its users, and their clients are ejected. -/
theorem effect_removeGroup {s : Server} (hs : s.WellFormed) {g : Group} {id : Int}
    (hg : s.findGroup id = some g) :
    ∃ t, s.removeGroup id = some t ∧ Effect s t (ejected g.id g.users) fun group user =>
      if group = id then none else s.member group user := by
  have heject := updates_ejectAll s g.id g.users
  unfold removeGroup
  rw [hg]
  refine ⟨_, rfl, ?_⟩
  generalize g.users.foldl _ s = t at heject ⊢
  have ht := hs.updates heject
  have hfind : ∀ id', ({ t with groups := Keyed.remove Group.id id t.groups } : Server).findGroup id' =
      if id' = id then none else s.findGroup id' := by
    intro id'
    rw [findGroup, ht.groups.lookup_remove, heject.groups]
    rfl
  refine ⟨ht.eraseGroup id, heject.ids, heject.find, keepsNames_of_find ?_ ?_ fun id' g' hg' => ?_,
    fun group user => ?_⟩
  · rw [heject.rest]
  · rw [heject.rest]
  · rw [hfind] at hg'
    split at hg'
    next => cases hg'
    next => exact ⟨g', hg', rfl⟩
  · unfold member
    rw [hfind]
    split
    next => rfl
    next => rfl

/-- Exactly the removed user cannot be found any more. -/
theorem findUser_removeUser {g : Group} (hg : g.WellFormed) (id user : Int) :
    (g.removeUser id).findUser user = if user = id then none else g.findUser user :=
  hg.ids.lookup_remove user

/-- A changed user is found under its id, and the others as they were. -/
theorem findUser_modifyUser {g : Group} {id : Int} {f : User → User}
    (hf : ∀ u, (f u).id = u.id) (user : Int) :
    (g.modifyUser id f).findUser user =
      if user = id then (g.findUser id).map f else g.findUser user :=
  Keyed.lookup_adjust (fun u _ _ => hf u) user

/-- A group with the same name takes the place of a group. -/
theorem effect_modifyGroup {s : Server} (hs : s.WellFormed) {g : Group} {id : Int}
    {f : Group → Group} (hg : s.findGroup id = some g)
    (hf : (f g).id = g.id ∧ (f g).name = g.name ∧ (f g).WellFormed) :
    Effect s (s.modifyGroup id f) (fun _ c => c) fun group user =>
      if group = id then ((f g).findUser user).map (g.name, ·) else s.member group user := by
  have hall : ∀ g' ∈ s.groups, g'.id = id →
      (f g').id = g'.id ∧ (f g').name = g'.name ∧ (f g').WellFormed := by
    intro g' hg' hid
    obtain ⟨hmem, hid'⟩ := findGroup_mem hg
    rw [hs.groups.eq hg' hmem (hid.trans hid'.symm)]
    exact hf
  have hfind := findGroup_modifyGroup fun g' hg' hid => (hall g' hg' hid).1
  refine ⟨hs.modifyGroup hall, rfl, fun _ => Option.map_id'.symm,
    keepsNames_of_find (Int.le_refl _) (Int.le_refl _) fun id' g' hg' => ?_, fun group user => ?_⟩
  · rw [hfind] at hg'
    split at hg'
    next heq =>
      rw [hg, Option.map_some] at hg'
      injection hg' with hg'
      exact ⟨g, heq ▸ hg, hg' ▸ hf.2.1.symm⟩
    next => exact ⟨g', hg', rfl⟩
  · unfold member
    rw [hfind]
    split
    next => rw [hg, Option.map_some, Option.bind_some, hf.2.1]
    next => rfl

/-- The users are the same but for their metadata and other things that have nothing to do with
their clients. -/
def SameClients (m m' : Int → Int → Option (String × User)) : Prop :=
  ∀ group user, (m' group user).map (fun x => (x.1, x.2.client, x.2.flags)) =
    (m group user).map fun x => (x.1, x.2.client, x.2.flags)

theorem SameClients.refl (m : Int → Int → Option (String × User)) : SameClients m m :=
  fun _ _ => rfl

/-- The metadata of a group changes. -/
theorem effect_groupMetadata {s : Server} (hs : s.WellFormed) {g : Group}
    (hg : s.findGroup g.id = some g) (md : Option AooData) :
    Effect s (s.modifyGroup g.id fun g => { g with metadata := md }) (fun _ c => c) s.member := by
  have hwf := hs.wellFormed g (findGroup_mem hg).1
  have h := effect_modifyGroup hs hg (f := fun g => { g with metadata := md })
    ⟨rfl, rfl, ⟨hwf.ids, hwf.names, hwf.present, hwf.range, hwf.group, hwf.next⟩⟩
  refine ⟨h.wellFormed, h.ids, h.find, h.names, fun group user => (h.member group user).trans ?_⟩
  split
  next heq =>
    rw [heq, member, hg]
    rfl
  next => rfl

/-- The metadata of a user changes. -/
theorem effect_userMetadata {s : Server} (hs : s.WellFormed) {g : Group}
    (hg : s.findGroup g.id = some g) (id : Int) (md : Option AooData) :
    ∃ m, Effect s (s.modifyGroup g.id fun g => g.modifyUser id fun u => { u with metadata := md })
      (fun _ c => c) m ∧ SameClients s.member m := by
  have hwf := hs.wellFormed g (findGroup_mem hg).1
  refine ⟨_, effect_modifyGroup hs hg
    (f := fun g => g.modifyUser id fun u => { u with metadata := md })
    ⟨rfl, rfl, hwf.modifyUser id (fun _ => ⟨rfl, rfl, rfl⟩) fun u hu _ => hwf.present u hu⟩,
    fun group user => ?_⟩
  split
  next heq =>
    rw [heq, member, hg, Option.bind_some,
      findUser_modifyUser (f := fun u => { u with metadata := md }) fun _ => rfl]
    split
    next huser =>
      rw [huser]
      cases g.findUser id <;> rfl
    next => rfl
  next => rfl

/-- What a message or a call about metadata does: nothing, or a group or one of its users gets
new metadata, and some clients are told. -/
inductive Annotates (s : Server) : Server → Prop
  | refl : Annotates s s
  | group {g : Group} {t : Server} {out : Int → List ClientMessage}
      (hg : s.findGroup g.id = some g) (md : Option AooData)
      (h : Sends (s.modifyGroup g.id fun g => { g with metadata := md }) t out) : Annotates s t
  | user {g : Group} {t : Server} {out : Int → List ClientMessage}
      (hg : s.findGroup g.id = some g) (id : Int) (md : Option AooData)
      (h : Sends (s.modifyGroup g.id fun g => g.modifyUser id fun u => { u with metadata := md })
        t out) : Annotates s t

/-- The call that updates a group. -/
theorem annotates_updateGroup (s : Server) (group : Int) (md : AooData) :
    Annotates s (s.updateGroup group md) := by
  unfold updateGroup
  split
  next => exact .refl
  next g hg =>
    rw [← (findGroup_mem hg).2] at hg
    exact .group hg (some md) (sends_sendAll ..)

/-- The request that does the same. -/
theorem annotates_doGroupUpdate (s : Server) (client : ClientEndpoint) (token group : Int)
    (md : AooData) : Annotates s (s.doGroupUpdate client token group md) := by
  unfold doGroupUpdate
  split
  next => exact .refl
  next g hg =>
    rw [← (findGroup_mem hg).2] at hg
    split
    next => exact .refl
    next => exact .group hg (some md) ((sends_sendAll ..).trans (sends_send ..))

/-- The call that updates a user. -/
theorem annotates_updateUser (s : Server) (group user : Int) (md : AooData) :
    Annotates s (s.updateUser group user md) := by
  unfold updateUser
  split
  next => exact .refl
  next g hg =>
    rw [← (findGroup_mem hg).2] at hg
    split
    next => exact .refl
    next u _ => exact .user hg u.id (some md) (sends_sendAll ..)

/-- The request that does the same. -/
theorem annotates_doUserUpdate (s : Server) (client : ClientEndpoint) (token group user : Int)
    (md : AooData) : Annotates s (s.doUserUpdate client token group user md) := by
  unfold doUserUpdate
  split
  next => exact .refl
  next g hg =>
    rw [← (findGroup_mem hg).2] at hg
    split
    next => exact .refl
    next u _ => exact .user hg u.id (some md) ((sends_sendAll ..).trans (sends_send ..))

/-- **A user is removed from its group.** A persistent user stays without client. -/
theorem effect_doRemove {s : Server} (hs : s.WellFormed) {g : Group} {u : User}
    (hg : s.findGroup g.id = some g) (hu : g.findUser u.id = some u) :
    Effect s (s.doRemoveUserFromGroup g u) (fun _ c => c) fun group user =>
      if group = g.id ∧ user = u.id then
        if u.persistent then some (g.name, u.unset) else none
      else s.member group user := by
  have hwf := hs.wellFormed g (findGroup_mem hg).1
  have hother : ∀ user, s.member g.id user = (g.findUser user).map (g.name, ·) := by
    intro user
    rw [member, hg]
    rfl
  unfold doRemoveUserFromGroup
  split
  next hp =>
    have h := effect_modifyGroup hs hg (f := fun g => g.modifyUser u.id User.unset)
      ⟨rfl, rfl, hwf.modifyUser u.id (fun _ => ⟨rfl, rfl, rfl⟩) fun v hv hid => .inr
        (hwf.ids.eq hv (Group.findUser_mem hu).1 hid ▸ hp)⟩
    refine ⟨h.wellFormed, h.ids, h.find, h.names, fun group user => (h.member group user).trans ?_⟩
    by_cases hgroup : group = g.id
    · rw [if_pos hgroup, findUser_modifyUser (f := User.unset) (fun _ => rfl), hgroup, hother]
      by_cases huser : user = u.id
      · simp [huser, hu]
      · simp [huser]
    · simp [hgroup]
  next hp =>
    have h := effect_modifyGroup hs hg (f := fun g => g.removeUser u.id)
      ⟨rfl, rfl, hwf.removeUser u.id⟩
    have hmember : ∀ group user, (s.modifyGroup g.id fun g => g.removeUser u.id).member group user =
        if group = g.id ∧ user = u.id then none else s.member group user := by
      intro group user
      rw [h.member]
      by_cases hgroup : group = g.id
      · rw [if_pos hgroup, findUser_removeUser hwf, hgroup, hother]
        by_cases huser : user = u.id
        · simp [huser]
        · simp [huser]
      · simp [hgroup]
    simp only
    split
    next hempty =>
      -- The group has no users left, so that nobody is ejected when it is removed.
      have hnil : (g.removeUser u.id).users = [] := List.isEmpty_iff.mp hempty.2
      have hfind : (s.modifyGroup g.id fun g => g.removeUser u.id).findGroup g.id =
          some (g.removeUser u.id) := by
        rw [findGroup_modifyGroup (f := fun g => g.removeUser u.id) fun _ _ _ => rfl, if_pos rfl, hg]
        rfl
      obtain ⟨t, ht, heffect⟩ := effect_removeGroup h.wellFormed hfind
      rw [ht, Option.getD_some]
      have htrans := h.trans heffect
      refine ⟨htrans.wellFormed, htrans.ids, fun id => ?_, htrans.names, fun group user => ?_⟩
      · rw [htrans.find, hnil]
        rfl
      · rw [htrans.member]
        by_cases hgroup : group = g.id
        · rw [if_pos hgroup, hgroup, hother]
          by_cases huser : user = u.id
          · simp [huser]
          · have hnone : g.findUser user = none := by
              have hremoved := findUser_removeUser hwf u.id user
              rw [if_neg huser] at hremoved
              rw [← hremoved, Group.findUser, hnil]
              rfl
            simp [huser, hnone]
        · rw [if_neg hgroup, hmember]
    next => exact ⟨h.wellFormed, h.ids, h.find, h.names, hmember⟩

/-- The messages about a user that has left a group. -/
def leaveMessages (g : Group) (u : User) (id : Int) : List ClientMessage :=
  g.users.flatMap fun peer =>
    if peer.id ≠ u.id then if id = peer.client then [.peerLeave g.id u.id] else [] else []

/-- A user that leaves: the peers are told, and a persistent user stays in the group without a
client. -/
theorem effect_closeGroupUser {s : Server} (hs : s.WellFormed) {g : Group} {u : User}
    (hg : s.findGroup g.id = some g) (hu : g.findUser u.id = some u) :
    Effect s (s.closeGroupUser (g.id, u.id)) (fun id c => c.told (leaveMessages g u id))
      fun group user =>
        if group = g.id ∧ user = u.id then
          if u.persistent then some (g.name, u.unset) else none
        else s.member group user := by
  have hsend := sends_onUserLeftGroup s g u
  have hg' : (s.onUserLeftGroup g u).findGroup g.id = some g := by
    rw [findGroup, hsend.groups]
    exact hg
  have h := (Updates.effect hsend hs).trans (effect_doRemove (hs.updates hsend) hg' hu)
  unfold closeGroupUser
  rw [hg]
  simp only [hu]
  refine ⟨h.wellFormed, h.ids, h.find, h.names, fun group user => ?_⟩
  rw [h.member, (Updates.effect hsend hs).member]

/-! ## Joining -/

/-- A new group has no users. -/
theorem effect_addGroup {s t : Server} (hs : s.WellFormed) {g : Group} (hid : g.id = s.nextGroupId)
    (husers : g.users = []) (hnext : g.nextUserId = 0)
    (ht : ({ s with nextGroupId := s.nextGroupId + 1 } : Server).addGroup g = some t) :
    Effect s t (fun _ c => c) s.member ∧ t.findGroup g.id = some g := by
  unfold addGroup at ht
  split at ht
  next => cases ht
  next hname =>
    injection ht with ht
    have hfresh : ∀ g' ∈ s.groups, g'.id ≠ g.id := by
      intro g' hg' heq
      have hrange := (hs.groupRange g' hg').2
      omega
    have hwf : g.WellFormed := by
      refine ⟨?_, ?_, ?_, ?_, ?_, by omega⟩
      all_goals simp [husers, Keyed.Distinct]
    subst ht
    have hfind : ∀ id, ({ s with
        nextGroupId := s.nextGroupId + 1, groups := s.groups ++ [g] } : Server).findGroup id =
        if id = g.id then some g else s.findGroup id := Keyed.lookup_append hfresh
    refine ⟨⟨⟨hs.clients, hs.clientRange, hs.groups.append hfresh,
      hs.names.append (Keyed.lookup_eq_none.mp hname), fun g' hg' => ?_, fun g' hg' => ?_,
      hs.nextClient, Int.le_trans hs.nextGroup (Int.le_add_one (Int.le_refl _))⟩, rfl,
      fun _ => Option.map_id'.symm,
      ⟨Int.le_refl _, Int.le_add_one (Int.le_refl _), fun id g' hg' => ?_⟩,
      fun group user => ?_⟩, ?_⟩
    · change 0 ≤ g'.id ∧ g'.id < s.nextGroupId + 1
      rcases List.mem_append.mp hg' with hold | hnew
      · have hrange := hs.groupRange g' hold
        omega
      · have hnextGroup := hs.nextGroup
        rw [List.mem_singleton.mp hnew]
        omega
    · rcases List.mem_append.mp hg' with hold | hnew
      · exact hs.wellFormed g' hold
      · rw [List.mem_singleton.mp hnew]
        exact hwf
    · rw [hfind] at hg'
      split at hg'
      next heq => exact .inl (by omega)
      next => exact .inr ⟨g', hg', rfl⟩
    · unfold member
      rw [hfind]
      split
      next heq =>
        have hnone : s.findGroup group = none :=
          Keyed.lookup_eq_none.mpr fun g' hg' => heq ▸ hfresh g' hg'
        rw [hnone, Option.bind_some, Group.findUser, husers]
        rfl
      next => rfl
    · rw [hfind, if_pos rfl]

/-- A drawn group id changes no group. -/
theorem effect_nextGroupId {s : Server} (hs : s.WellFormed) :
    Effect s { s with nextGroupId := s.nextGroupId + 1 } (fun _ c => c) s.member where
  wellFormed :=
    { hs with
      groupRange := fun g hg =>
        ⟨(hs.groupRange g hg).1, Int.lt_trans (hs.groupRange g hg).2 (Int.lt_add_one_iff.mpr
          (Int.le_refl _))⟩
      nextGroup := Int.le_trans hs.nextGroup (Int.le_add_one (Int.le_refl _)) }
  ids := rfl
  find _ := Option.map_id'.symm
  names := keepsNames_of_find (Int.le_refl _) (Int.le_add_one (Int.le_refl _))
    fun _ g hg => ⟨g, hg, rfl⟩
  member _ _ := rfl

/-- The group of a join is there, and nobody has got in or out. -/
theorem effect_findOrCreateGroup {s : Server} (hs : s.WellFormed) (r : GroupJoinRequest)
    (response : GroupJoinResponse) :
    Effect s (s.findOrCreateGroup r response).1 (fun _ c => c) s.member ∧
      ∀ g created, (s.findOrCreateGroup r response).2 = some (g, created) →
        (s.findOrCreateGroup r response).1.findGroup g.id = some g ∧
          (s.findGroup r.groupId = some g ∨ (g.name = r.groupName ∧ g.users = [])) := by
  unfold findOrCreateGroup
  split
  next g hg =>
    refine ⟨(Updates.refl s).effect hs, fun g' created heq => ?_⟩
    injection heq with heq
    rw [← (Prod.mk.inj heq).1, (findGroup_mem hg).2]
    exact ⟨hg, .inl hg⟩
  next hnone =>
    simp only
    split
    next t ht =>
      have h := effect_addGroup hs rfl rfl rfl ht
      refine ⟨h.1, fun g' created heq => ?_⟩
      injection heq with heq
      rw [← (Prod.mk.inj heq).1]
      exact ⟨h.2, .inr ⟨rfl, rfl⟩⟩
    next => exact ⟨effect_nextGroupId hs, nofun⟩

/-- What the members of a group are told about a client does not depend on what it is told,
or on its groups. -/
theorem joinMessages_congr {s t : Server} {f : Int → ClientEndpoint → ClientEndpoint}
    (hfind : ∀ id, t.findClient id = (s.findClient id).map (f id))
    (hf : ∀ id c, (f id c).id = c.id ∧ (f id c).version = c.version ∧
      (f id c).publicAddresses = c.publicAddresses) (g : Group) (u : User) (client : ClientEndpoint) :
    t.joinMessages g u client = s.joinMessages g u client := by
  funext id peer
  unfold joinMessages
  rw [hfind]
  cases s.findClient peer.client with
  | none => rfl
  | some other =>
    obtain ⟨h1, h2, h3⟩ := hf peer.client other
    simp only [Option.map_some, peerJoinMessage, h1, h2, h3]

/-- The reply to a client that has joined a group. -/
def joinReply (s : Server) (g : Group) (u : User) (response : GroupJoinResponse) : GroupJoinReply where
  groupId := g.id
  groupFlags := g.flags
  groupMetadata := g.metadata
  userId := u.id
  userFlags := u.flagsResult
  userMetadata := u.metadata
  privateMetadata := response.privateMetadata
  relay := s.relayAddr g

local instance : LawfulBEq (Int × Int) := inferInstance

/-- A client that has joined a group. -/
def joined (s : Server) (client : ClientEndpoint) (token : Int) (g : Group) (u : User)
    (response : GroupJoinResponse) (id : Int) (c : ClientEndpoint) : ClientEndpoint :=
  { c with
    groupUsers := if id = client.id ∧ (g.id, u.id) ∉ c.groupUsers then
      c.groupUsers ++ [(g.id, u.id)] else c.groupUsers
    stream := c.stream ++
      ((if id = client.id then [.groupJoin token (s.joinReply g u response)] else []) ++
        g.users.flatMap (s.joinMessages g u client id)) }

/-- The last part of a join concerns clients only: the new user and its peers hear of each
other. -/
theorem updates_finishGroupJoin (s : Server) (client : ClientEndpoint) (token : Int) (g : Group)
    (u : User) (response : GroupJoinResponse) :
    Updates s (s.finishGroupJoin client token g u response) (s.joined client token g u response) := by
  have hjoin := updates_onGroupJoin s client.id g.id u.id
  have hreply := sends_send (s.onGroupJoin client.id g.id u.id) client.id
    (.groupJoin token (s.joinReply g u response))
  have hpeers := sends_onUserJoinedGroup ((s.onGroupJoin client.id g.id u.id).send client.id
    (.groupJoin token (s.joinReply g u response))) g u client
  have hmessages : ((s.onGroupJoin client.id g.id u.id).send client.id
      (.groupJoin token (s.joinReply g u response))).joinMessages g u client =
      s.joinMessages g u client := by
    refine joinMessages_congr (hjoin.trans hreply).find (fun id c => ?_) g u client
    beta_reduce
    split
    next => exact ⟨rfl, rfl, rfl⟩
    next => exact ⟨rfl, rfl, rfl⟩
  have h := (hjoin.trans hreply).trans hpeers
  refine Updates.congr h fun id c _ => ?_
  rw [hmessages]
  unfold joined ClientEndpoint.told
  split
  next => simp [List.append_assoc]
  next => simp [List.append_assoc]

/-- An id is taken for a user. -/
theorem effect_nextUserId {s : Server} (hs : s.WellFormed) {g g₁ : Group} {id : Int}
    (hg : s.findGroup g.id = some g) (hcount : g.getNextUserId = (id, g₁)) :
    Effect s (s.modifyGroup g₁.id fun _ => g₁) (fun _ c => c) s.member ∧
      (s.modifyGroup g₁.id fun _ => g₁).findGroup g₁.id = some g₁ ∧
      g₁.id = g.id ∧ g₁.name = g.name ∧ g₁.users = g.users := by
  have hwf := hs.wellFormed g (findGroup_mem hg).1
  obtain ⟨⟨n, rfl, hle, -⟩, -⟩ := hwf.getNextUserId hcount
  have h := effect_modifyGroup hs hg (f := fun _ => { g with nextUserId := n })
    ⟨rfl, rfl, hwf.setNext hle⟩
  refine ⟨⟨h.wellFormed, h.ids, h.find, h.names, fun group user => (h.member group user).trans ?_⟩, ?_,
    rfl, rfl, rfl⟩
  · split
    next hid =>
      rw [hid, member, hg]
      rfl
    next => rfl
  · have hsame : ∀ g' ∈ s.groups, g'.id = g.id →
        ((fun _ => { g with nextUserId := n }) g' : Group).id = g'.id := fun _ _ hid => hid.symm
    rw [findGroup_modifyGroup hsame, if_pos rfl, hg]
    rfl

/-- **A user is added to a group.** -/
theorem effect_addUser {s : Server} (hs : s.WellFormed) {g g₁ g₂ : Group} {u : User}
    (hg : s.findGroup g.id = some g) (hcount : g.getNextUserId = (u.id, g₁))
    (hadd : g₁.addUser u = some g₂) (hu : u.group = g₁.id)
    (hpresent : u.active = true ∨ u.persistent = true) :
    (Effect s ((s.modifyGroup g₁.id fun _ => g₁).modifyGroup g₂.id fun _ => g₂) (fun _ c => c)
      fun group user =>
        if group = g.id ∧ user = u.id then some (g.name, u) else s.member group user) ∧
      ((s.modifyGroup g₁.id fun _ => g₁).modifyGroup g₂.id fun _ => g₂).findGroup g₂.id = some g₂ ∧
      g₂.id = g.id ∧ g₂.name = g.name ∧ g₂.users = g.users ++ [u] ∧ g.findUser u.id = none := by
  obtain ⟨heffect, hg₁, hid₁, hname₁, husers₁⟩ := effect_nextUserId hs hg hcount
  have hwf := hs.wellFormed g (findGroup_mem hg).1
  obtain ⟨⟨n, hn, hle, hrange⟩, hfree⟩ := hwf.getNextUserId hcount
  have hwf₁ := heffect.wellFormed.wellFormed g₁ (findGroup_mem hg₁).1
  obtain ⟨hwf₂, hg₂⟩ := hwf₁.addUser hadd (by rw [husers₁]; exact hfree) (by rw [hn]; exact hrange) hu
    hpresent
  have hid₂ : g₂.id = g₁.id := by rw [hg₂]
  have hname₂ : g₂.name = g₁.name := by rw [hg₂]
  have husers₂ : g₂.users = g.users ++ [u] := by rw [hg₂, husers₁]
  have hnone : g.findUser u.id = none := Keyed.lookup_eq_none.mpr hfree
  have hfind₂ : ∀ user, g₂.findUser user = if user = u.id then some u else g.findUser user := by
    intro user
    rw [Group.findUser, husers₂]
    exact Keyed.lookup_append hfree user
  have hg₁' : (s.modifyGroup g₁.id fun _ => g₁).findGroup g₂.id = some g₁ := by
    rw [hid₂]
    exact hg₁
  have hsecond := effect_modifyGroup heffect.wellFormed hg₁' (f := fun _ => g₂) ⟨hid₂, hname₂, hwf₂⟩
  have h := heffect.trans hsecond
  refine ⟨⟨h.wellFormed, h.ids, h.find, h.names, fun group user => (h.member group user).trans ?_⟩, ?_,
    hid₂.trans hid₁, hname₂.trans hname₁, husers₂, hnone⟩
  · rw [heffect.member, hid₂, hid₁, hname₁, hfind₂]
    by_cases hgroup : group = g.id
    · by_cases huser : user = u.id
      · simp [hgroup, huser]
      · simp [hgroup, huser, member, hg]
    · simp [hgroup]
  · have hsame : ∀ g' ∈ (s.modifyGroup g₁.id fun _ => g₁).groups, g'.id = g₂.id →
        ((fun _ => g₂) g' : Group).id = g'.id := fun _ _ hid => hid.symm
    rw [findGroup_modifyGroup hsame, if_pos rfl, hg₁']
    rfl

/-- A join is for a user that is not there yet. -/
def CreatesUser (s : Server) (r : GroupJoinRequest) : Prop := s.member r.groupId r.userId = none

instance (s : Server) (r : GroupJoinRequest) : Decidable (s.CreatesUser r) :=
  inferInstanceAs (Decidable (_ = none))

/-- A user was added to a group by a join of a client: the group with it, and what happened
to the server. -/
structure Joins (s t : Server) (client : ClientEndpoint) (token : Int) (r : GroupJoinRequest)
    (response : GroupJoinResponse) (g : Group) (u : User) : Prop where
  owner : u.client = client.id
  userName : u.name = r.userName
  automatic : u.persistent = false
  new : s.member g.id u.id = none
  source : (∃ g₀, s.findGroup r.groupId = some g₀ ∧ g.id = g₀.id ∧ g.name = g₀.name) ∨
    (g.name = r.groupName ∧ ∀ user, s.member g.id user = none)
  users : ∀ peer, peer ∈ g.users ↔ peer = u ∨ s.member g.id peer.id = some (g.name, peer)
  found : t.findGroup g.id = some g
  effect : ∃ s₀ : Server, Effect s t (s₀.joined client token g u response) (fun group user =>
      if group = g.id ∧ user = u.id then some (g.name, u) else s.member group user) ∧
    s₀.joinMessages g u client = s.joinMessages g u client

/-- **A join fails with an error, or adds a user.** -/
theorem doGroupJoin_cases {s : Server} (hs : s.WellFormed) {client : ClientEndpoint}
    (hclient : client.id ≠ kAooIdInvalid) (token : Int) {r : GroupJoinRequest}
    (response : GroupJoinResponse) (hr : s.CreatesUser r) :
    (∃ e, Effect s (s.doGroupJoin client token r response) (fun id c => c.told
      (if id = client.id then [.error .groupJoin token e 0 ""] else [])) s.member) ∨
    ∃ g u, Joins s (s.doGroupJoin client token r response) client token r response g u := by
  obtain ⟨hcreate, hgroup⟩ := effect_findOrCreateGroup hs r response
  unfold doGroupJoin
  split
  next t heq =>
    rw [heq] at hcreate
    exact .inl ⟨.cannotCreateGroup, hcreate.sends (sends_sendError t client.id token .groupJoin
      .cannotCreateGroup none)⟩
  next t g created heq =>
    rw [heq] at hcreate hgroup
    obtain ⟨hg, hsource⟩ := hgroup g created rfl
    replace hg : t.findGroup g.id = some g := hg
    have hwf := hcreate.wellFormed.wellFormed g (findGroup_mem hg).1
    -- in a group that is there the request creates a user, and a new group has none
    have hnone : g.findUser r.userId = none := by
      rcases hsource with hfound | ⟨-, husers⟩
      · rw [CreatesUser, member, hfound, Option.bind_some, Option.map_eq_none_iff] at hr
        exact hr
      · rw [Group.findUser, husers]
        rfl
    have hmember : ∀ user, s.member g.id user = (g.findUser user).map (g.name, ·) := by
      intro user
      rw [← hcreate.member, member, hg]
      rfl
    simp only [hnone]
    cases hcount : g.getNextUserId with
    | mk id g₁ =>
    simp only
    split
    next =>
      -- only the counter for user ids has moved
      obtain ⟨hnext, -⟩ := effect_nextUserId hcreate.wellFormed hg hcount
      refine .inl ⟨.cannotCreateUser, ?_⟩
      have h := (hcreate.trans hnext).sends (sends_sendError _ client.id token .groupJoin
        .cannotCreateUser none)
      refine ⟨h.wellFormed, h.ids, h.find, h.names, fun group user => (h.member group user).trans ?_⟩
      exact hcreate.member group user
    next g₂ hadd =>
      refine .inr ⟨g₂, newUser client.id id g₁.id created r response, ?_⟩
      generalize hu : newUser client.id id g₁.id created r response = u at hadd
      have hid : u.id = id := by rw [← hu, newUser]
      subst hid
      obtain ⟨hadded, hg₂, hid₂, hname₂, husers₂, hfresh⟩ :=
        effect_addUser hcreate.wellFormed hg hcount hadd (by rw [← hu, newUser])
          (.inl (decide_eq_true (by rw [← hu]; exact hclient)))
      have hfinish := updates_finishGroupJoin ((t.modifyGroup g₁.id fun _ => g₁).modifyGroup g₂.id
        fun _ => g₂) client token g₂ u response
      have h := (hcreate.trans hadded).trans (hfinish.effect hadded.wellFormed)
      refine ⟨by rw [← hu, newUser], by rw [← hu, newUser], ?_, ?_, ?_, fun peer => ?_, ?_, _,
        ⟨h.wellFormed, h.ids, h.find, h.names, fun group user => ?_⟩, ?_⟩
      · rw [← hu]
        change hasBit (if created then kAooUserGroupCreator else 0) kAooUserPersistent = false
        cases created <;> decide
      · rw [hid₂, hmember, hfresh]
        rfl
      · rcases hsource with hfound | ⟨hname, husers⟩
        · exact .inl ⟨g, hfound, hid₂, hname₂⟩
        · refine .inr ⟨hname₂.trans hname, fun user => ?_⟩
          rw [hid₂, hmember, Group.findUser, husers]
          rfl
      · rw [husers₂, List.mem_append, List.mem_singleton, hid₂, hname₂, hmember, or_comm]
        refine or_congr Iff.rfl ⟨fun hp => ?_, fun hp => ?_⟩
        · rw [hwf.findUser hp]
          rfl
        · obtain ⟨v, hv, hpair⟩ := Option.map_eq_some_iff.mp hp
          rw [← (Prod.mk.inj hpair).2]
          exact (Group.findUser_mem hv).1
      · rw [findGroup, hfinish.groups]
        exact hg₂
      · rw [h.member, hadded.member, hid₂, hname₂, hcreate.member]
      · exact joinMessages_congr (hcreate.trans hadded).find (fun _ _ => ⟨rfl, rfl, rfl⟩) g₂ u client

end Server

end Aoo.Net
