import Aoo.Lib.Run
import Aoo.Net.Effect

/-!
# Membership on the server

The membership of a client in a group is stored twice, in the user and in the list of the
client. The two records agree (`Consistent`) as long as each join creates its user.
A client that joins as a user that exists is put on its own list, but the user
does not get the client's id: `set_client` is never called.
-/

namespace Aoo.Net

open Lib

namespace Server

/-! ## The two records agree -/

/-- The groups and users of a client. -/
def links (s : Server) (id : Int) : List (Int × Int) :=
  ((s.findClient id).map ClientEndpoint.groupUsers).getD []

/-- The lists of the clients are about the users that have their ids. -/
def Linked (links : Int → List (Int × Int)) (m : Int → Int → Option (String × User)) : Prop :=
  ∀ id, id ≠ kAooIdInvalid → ∀ group user,
    (group, user) ∈ links id ↔ ∃ n u, m group user = some (n, u) ∧ u.client = id

/-- **The two records of the memberships agree.** -/
structure Consistent (s : Server) : Prop extends s.WellFormed where
  linked : Linked s.links s.member
  nodup : ∀ id, (s.links id).Nodup

/-- What a client remembers and what the groups say change together. -/
theorem Effect.links {s t : Server} {f : Int → ClientEndpoint → ClientEndpoint}
    {m : Int → Int → Option (String × User)} (h : Effect s t f m)
    {l : Int → List (Int × Int) → List (Int × Int)} (hnil : ∀ id, l id [] = [])
    (hf : ∀ id c, s.findClient id = some c → (f id c).groupUsers = l id c.groupUsers) (id : Int) :
    t.links id = l id (s.links id) := by
  unfold Server.links
  rw [h.find]
  cases hc : s.findClient id with
  | none => exact (hnil id).symm
  | some c => exact hf id c hc

/-- A message does not touch the lists. -/
theorem Effect.links_of_eq {s t : Server} {f : Int → ClientEndpoint → ClientEndpoint}
    {m : Int → Int → Option (String × User)} (h : Effect s t f m)
    (hf : ∀ id c, (f id c).groupUsers = c.groupUsers) : t.links = s.links :=
  funext fun id => h.links (l := fun _ l => l) (fun _ => rfl) (fun id c _ => hf id c) id

/-- An operation that touches neither record. -/
theorem Consistent.of_eq {s t : Server} (h : s.Consistent)
    {f : Int → ClientEndpoint → ClientEndpoint} {m : Int → Int → Option (String × User)}
    (he : Effect s t f m) (hf : ∀ id c, (f id c).groupUsers = c.groupUsers)
    (hm : Linked s.links s.member → Linked s.links m) : t.Consistent := by
  have hlinks := he.links_of_eq hf
  refine ⟨he.wellFormed, ?_, fun id => ?_⟩
  · rw [hlinks, show t.member = m from funext fun g => funext fun u => he.member g u]
    exact hm h.linked
  · rw [hlinks]
    exact h.nodup id

/-- Messages change no membership. -/
theorem Consistent.sends {s t : Server} (h : s.Consistent) {o : Int → List ClientMessage}
    (hsend : Sends s t o) : t.Consistent :=
  h.of_eq (Updates.effect hsend h.toWellFormed) (fun _ _ => rfl) id

/-- A user leaves: it is taken from the list of its client. -/
theorem Linked.remove {L : Int → List (Int × Int)} {m m' : Int → Int → Option (String × User)}
    (h : Linked L m) {group user : Int} {n : String} {u : User} (hm : m group user = some (n, u))
    (hn : (L u.client).Nodup) (hm' : ∀ g v, m' g v = if g = group ∧ v = user then
      if u.persistent then some (n, u.unset) else none else m g v) :
    Linked (Function.update L u.client ((L u.client).erase (group, user))) m' := by
  intro id hid g v
  rw [hm']
  by_cases heq : g = group ∧ v = user
  · obtain ⟨rfl, rfl⟩ := heq
    refine iff_of_false (fun hmem => ?_) ?_
    · by_cases hc : id = u.client
      · rw [hc, Function.update_self, hn.mem_erase_iff] at hmem
        exact hmem.1 rfl
      · rw [Function.update_of_ne hc, h id hid, hm] at hmem
        obtain ⟨n', u', hsome, hclient⟩ := hmem
        injection hsome with hsome
        exact hc (hclient.symm.trans (congrArg User.client (Prod.mk.inj hsome).2.symm))
    · rw [if_pos ⟨rfl, rfl⟩]
      intro ⟨n', u', hsome, hclient⟩
      split at hsome
      next =>
        injection hsome with hsome
        exact hid (hclient.symm.trans (congrArg User.client (Prod.mk.inj hsome).2.symm))
      next => cases hsome
  · rw [if_neg heq, ← h id hid]
    by_cases hc : id = u.client
    · have hne : (g, v) ≠ (group, user) := fun he => heq (Prod.mk.inj he)
      rw [hc, Function.update_self, List.mem_erase_of_ne hne]
    · rw [Function.update_of_ne hc]

/-- A user without client goes, or comes. -/
theorem Linked.inactive {L : Int → List (Int × Int)} {m m' : Int → Int → Option (String × User)}
    (h : Linked L m)
    (hm' : ∀ g v, m' g v = m g v ∨ ((∀ n u, m g v = some (n, u) → u.client = kAooIdInvalid) ∧
      ∀ n u, m' g v = some (n, u) → u.client = kAooIdInvalid)) : Linked L m' := by
  intro id hid g v
  rw [h id hid]
  rcases hm' g v with heq | ⟨hold, hnew⟩
  · rw [heq]
  · refine iff_of_false ?_ ?_
    · intro ⟨n, u, hsome, hclient⟩
      exact hid (hclient.symm.trans (hold n u hsome))
    · intro ⟨n, u, hsome, hclient⟩
      exact hid (hclient.symm.trans (hnew n u hsome))

/-- A user gets metadata, or anything else that is not a client. -/
theorem Linked.same_client {L : Int → List (Int × Int)}
    {m m' : Int → Int → Option (String × User)} (h : Linked L m) (hm' : SameClients m m') :
    Linked L m' := by
  have hiff : ∀ (x : Option (String × User)) (id : Int), (∃ n u, x = some (n, u) ∧ u.client = id) ↔
      (x.map fun x => (x.1, x.2.client, x.2.flags)).map (·.2.1) = some id := by
    intro x id
    cases x with
    | none => simp
    | some p =>
      obtain ⟨n, u⟩ := p
      simp
  intro id hid g v
  rw [h id hid, hiff, hiff, hm']

/-- The client of a user has taken it from its list, and the user goes. -/
theorem Consistent.leave {s t : Server} (h : s.Consistent) {g : Group} {u : User}
    (hg : s.findGroup g.id = some g) (hu : g.findUser u.id = some u)
    {f : Int → ClientEndpoint → ClientEndpoint} (hupdate : Updates s t f)
    (hf : ∀ id c, (f id c).groupUsers =
      if id = u.client then c.groupUsers.erase (g.id, u.id) else c.groupUsers) :
    (t.doRemoveUserFromGroup g u).Consistent := by
  have hclients := hupdate.effect h.toWellFormed
  have hg' : t.findGroup g.id = some g := by
    rw [findGroup, hupdate.groups]
    exact hg
  have hremove := effect_doRemove hclients.wellFormed hg' hu
  have hlinks : (t.doRemoveUserFromGroup g u).links =
      Function.update s.links u.client ((s.links u.client).erase (g.id, u.id)) := by
    rw [hremove.links_of_eq fun _ _ => rfl]
    funext id
    rw [hclients.links (l := fun id l => if id = u.client then l.erase (g.id, u.id) else l)
      (fun id => by split <;> rfl) fun id c _ => hf id c]
    by_cases hid : id = u.client
    · rw [hid, Function.update_self, if_pos rfl]
    · rw [Function.update_of_ne hid, if_neg hid]
  have hmember := member_of_find hg hu
  refine ⟨hremove.wellFormed, ?_, fun id => ?_⟩
  · rw [hlinks]
    refine h.linked.remove hmember (h.nodup _) fun group user => ?_
    rw [hremove.member, hclients.member]
  · rw [hlinks]
    by_cases hid : id = u.client
    · rw [hid, Function.update_self]
      exact (h.nodup _).erase _
    · rw [Function.update_of_ne hid]
      exact h.nodup id

/-- A removed user is forgotten on both sides. -/
theorem Consistent.removeUserFromGroup {s : Server} (h : s.Consistent) (group user : Int) :
    (s.removeUserFromGroup group user).1.Consistent := by
  unfold Server.removeUserFromGroup
  split
  next => exact h
  next g hg =>
    split
    next => exact h
    next u hu =>
      rw [← (findGroup_mem hg).2] at hg
      rw [← (Group.findUser_mem hu).2] at hu
      simp only
      split
      next =>
        have hupdate := updates_ejectUser s g.id u
        refine h.leave hg hu (hupdate.trans (sends_onUserLeftGroup _ g u)) fun id c => ?_
        beta_reduce
        split
        next => rfl
        next => rfl
      next hinactive =>
        have hclient : u.client = kAooIdInvalid := by
          by_contra hne
          exact hinactive (decide_eq_true hne)
        refine h.of_eq (effect_doRemove h.toWellFormed hg hu) (fun _ _ => rfl) fun hlinked => ?_
        refine hlinked.inactive fun g' v => ?_
        by_cases heq : g' = g.id ∧ v = u.id
        · refine .inr ⟨fun n u' hsome => ?_, fun n u' hsome => ?_⟩
          · rw [heq.1, heq.2, member_of_find hg hu] at hsome
            injection hsome with hsome
            rw [← (Prod.mk.inj hsome).2]
            exact hclient
          · rw [if_pos heq] at hsome
            split at hsome
            next =>
              injection hsome with hsome
              rw [← (Prod.mk.inj hsome).2]
              rfl
            next => cases hsome
        · exact .inl (if_neg heq)

/-- So is one that leaves. -/
theorem Consistent.doGroupLeave {s : Server} (h : s.Consistent) (client : ClientEndpoint)
    (token group : Int) : (s.doGroupLeave client token group).Consistent := by
  unfold Server.doGroupLeave
  split
  next => exact h.sends (sends_sendError ..)
  next g hg =>
    split
    next => exact h.sends (sends_sendError ..)
    next u hu =>
      have hwf := h.wellFormed g (findGroup_mem hg).1
      rw [← (findGroup_mem hg).2] at hg
      have hclient : u.client = client.id := Keyed.key_of_lookup hu
      have hu' : g.findUser u.id = some u := hwf.findUser (Keyed.mem_of_lookup hu)
      have hleave := updates_onGroupLeave (s.onUserLeftGroup g u) client.id g.id u.id false
      refine (h.leave hg hu' (Updates.trans (sends_onUserLeftGroup s g u) hleave) fun id c => ?_).sends
        (sends_send ..)
      rw [hclient]
      beta_reduce
      split
      next => rfl
      next => rfl

/-- An ejected client forgets all its users of the group. -/
theorem ejected_groupUsers (group : Int) (us : List User) (id : Int) (c : ClientEndpoint) :
    (ejected group us id c).groupUsers =
      c.groupUsers.diff ((us.filter fun u => u.client = id).map fun u => (group, u.id)) := by
  unfold ejected
  induction us.filter (fun u => u.client = id) generalizing c with
  | nil => rfl
  | cons u us ih =>
    rw [List.foldl_cons, ih, List.map_cons, List.diff_cons]
    rfl

/-- A deleted group is forgotten by all clients. -/
theorem Consistent.deleteGroup {s : Server} (h : s.Consistent) (id : Int) :
    (s.deleteGroup id).1.Consistent := by
  unfold Server.deleteGroup
  cases hg : s.findGroup id with
  | none =>
    rw [removeGroup, hg]
    exact h
  | some g =>
    have hwf := h.wellFormed g (findGroup_mem hg).1
    obtain ⟨t, ht, he⟩ := effect_removeGroup h.toWellFormed hg
    rw [ht]
    have hlinks : ∀ c, t.links c = (s.links c).diff
        ((g.users.filter fun u => u.client = c).map fun u => (g.id, u.id)) :=
      he.links (l := fun c l => l.diff
        ((g.users.filter fun u => u.client = c).map fun u => (g.id, u.id)))
        (fun c => List.nil_diff _) fun c e _ => ejected_groupUsers g.id g.users c e
    refine ⟨he.wellFormed, fun c hc group user => ?_, fun c => ?_⟩
    · rw [hlinks, (h.nodup c).mem_sdiff_iff, h.linked c hc, he.member]
      have hid := (findGroup_mem hg).2
      by_cases hgroup : group = id
      · -- The users of the group that have the client are those that are taken from its list.
        rw [if_pos hgroup]
        refine iff_of_false ?_ fun hex => by obtain ⟨n, u, hsome, -⟩ := hex; cases hsome
        intro ⟨⟨n, u, hsome, hclient⟩, hnot⟩
        rw [hgroup] at hsome
        obtain ⟨g', hg', hu, -⟩ := member_eq_some.mp hsome
        rw [hg] at hg'
        injection hg' with hg'
        obtain ⟨humem, huid⟩ := Group.findUser_mem (hg' ▸ hu)
        refine hnot (List.mem_map.mpr ⟨u, ?_, ?_⟩)
        · exact List.mem_filter.mpr ⟨humem, decide_eq_true hclient⟩
        · rw [hid, huid, hgroup]
      · rw [if_neg hgroup]
        refine and_iff_left fun hmem => hgroup ?_
        obtain ⟨u, -, heq⟩ := List.mem_map.mp hmem
        rw [← (Prod.mk.inj heq).1, hid]
    · rw [hlinks]
      exact (h.nodup c).diff

/-- `on_close`: the users on the list of a client leave one after the other. -/
theorem close_loop {client : Int} (hc : client ≠ kAooIdInvalid) {P : Server → Prop}
    (hP : ∀ (s : Server) (g : Group) (u : User), s.WellFormed → s.findGroup g.id = some g →
      g.findUser u.id = some u → u.client = client → P s → P (s.closeGroupUser (g.id, u.id)))
    {s : Server} (hs : s.WellFormed) {L : List (Int × Int)} (hL : L.Nodup)
    (h : Linked (Function.update s.links client L) s.member) (hstart : P s) :
    let t := L.foldl closeGroupUser s
    t.WellFormed ∧ t.links = s.links ∧
      t.clients.map ClientEndpoint.id = s.clients.map ClientEndpoint.id ∧
      Linked (Function.update s.links client []) t.member ∧ P t := by
  induction L generalizing s with
  | nil => exact ⟨hs, rfl, rfl, h, hstart⟩
  | cons gu L ih =>
    obtain ⟨group, user⟩ := gu
    -- The head of the list is a user that has the client.
    have hhead := (h client hc group user).mp (by
      rw [Function.update_self]
      exact List.mem_cons_self ..)
    obtain ⟨n, u, hmember, hclient⟩ := hhead
    obtain ⟨g, hg, hu, rfl⟩ := member_eq_some.mp hmember
    obtain ⟨-, rfl⟩ := findGroup_mem hg
    obtain ⟨-, rfl⟩ := Group.findUser_mem hu
    have heffect := effect_closeGroupUser hs hg hu
    have hlinks := heffect.links_of_eq fun _ _ => rfl
    have hremove : Linked (Function.update s.links client L)
        (s.closeGroupUser (g.id, u.id)).member := by
      have hold := h.remove hmember (by rw [hclient, Function.update_self]; exact hL)
        heffect.member
      rw [hclient, Function.update_self, Function.update_idem, List.erase_cons_head] at hold
      exact hold
    rw [← hlinks] at hremove
    obtain ⟨h1, h2, h3, h4, h5⟩ := ih heffect.wellFormed (List.nodup_cons.mp hL).2 hremove
      (hP s g u hs hg hu hclient hstart)
    refine ⟨h1, h2.trans hlinks, h3.trans heffect.ids, ?_, h5⟩
    rw [← hlinks]
    exact h4

/-- A client that is gone is no member anywhere. -/
theorem Consistent.removeClient {s : Server} (h : s.Consistent) (id : Int) :
    (s.removeClient id).Consistent := by
  unfold Server.removeClient
  split
  next => exact h
  next c hfind =>
    have hid := h.client_ne_invalid hfind
    have hlist : s.links id = c.groupUsers := by
      rw [links, hfind]
      rfl
    obtain ⟨h1, h2, h3, h4, -⟩ := close_loop hid (P := fun _ => True) (fun _ _ _ _ _ _ _ _ => trivial)
      h.toWellFormed (hlist ▸ h.nodup id)
      (by rw [← hlist, Function.update_eq_self]; exact h.linked) trivial
    generalize c.groupUsers.foldl closeGroupUser s = t at h1 h2 h3 h4
    -- The client itself is gone.
    have hlinks : ({ t with clients := Keyed.remove ClientEndpoint.id id t.clients } : Server).links =
        Function.update s.links id [] := by
      funext id'
      rw [links, findClient, h1.clients.lookup_remove]
      by_cases heq : id' = id
      · rw [if_pos heq, heq, Function.update_self]
        rfl
      · rw [if_neg heq, Function.update_of_ne heq, ← h2]
        rfl
    refine ⟨⟨h1.clients.remove, fun id' hid' => ?_, h1.groups, h1.names, h1.groupRange,
      h1.wellFormed, h1.nextClient, h1.nextGroup⟩, ?_, fun id' => ?_⟩
    · obtain ⟨e, he, rfl⟩ := List.mem_map.mp hid'
      exact h1.clientRange _ (List.mem_map_of_mem (Keyed.mem_of_mem_remove he))
    · rw [hlinks]
      exact h4
    · rw [hlinks]
      by_cases heq : id' = id
      · rw [heq, Function.update_self]
        exact List.nodup_nil
      · rw [Function.update_of_ne heq]
        exact h.nodup id'

/-- A new client is a member of no group. -/
theorem Consistent.acceptClient {s : Server} (h : s.Consistent) : s.acceptClient.Consistent := by
  have hfresh : ∀ c ∈ s.clients, c.id ≠ s.nextClientId := by
    intro c hc heq
    have hrange := (h.clientRange _ (List.mem_map_of_mem hc)).2
    omega
  have hnext := h.nextClient
  -- The new client has an empty list, as an id that nobody has.
  have hlinks : s.acceptClient.links = s.links := by
    funext id
    rw [links, findClient, Server.acceptClient,
      Keyed.lookup_append (x := ({ id := s.nextClientId } : ClientEndpoint)) hfresh]
    split
    next heq =>
      have hnone : s.findClient id = none :=
        Keyed.lookup_eq_none.mpr fun c hc => heq ▸ hfresh c hc
      rw [links, hnone]
      rfl
    next => rfl
  refine ⟨⟨h.clients.append hfresh, fun id hid => ?_, h.groups, h.names, h.groupRange,
    h.wellFormed, Int.le_trans hnext (Int.le_add_one (Int.le_refl _)), h.nextGroup⟩, ?_,
    fun id => ?_⟩
  · change 0 ≤ id ∧ id < s.nextClientId + 1
    rw [Server.acceptClient, List.map_append] at hid
    rcases List.mem_append.mp hid with hold | hnew
    · have hrange := h.clientRange id hold
      omega
    · have heq : id = s.nextClientId := List.mem_singleton.mp hnew
      omega
  · rw [hlinks]
    exact h.linked
  · rw [hlinks]
    exact h.nodup id

/-! ## Runs -/

/-- A join is recorded by the group and by the client. -/
theorem Consistent.joins {s t : Server} (h : s.Consistent) {client : ClientEndpoint} {token : Int}
    {r : GroupJoinRequest} {response : GroupJoinResponse} {g : Group} {u : User}
    (hjoins : Joins s t client token r response g u)
    (hclient : s.findClient client.id = some client) (hid : client.id ≠ kAooIdInvalid) :
    t.Consistent := by
  obtain ⟨s₀, heffect, -⟩ := hjoins.effect
  -- Nobody has the user on the list: there was none.
  have hfresh : ∀ id, id ≠ kAooIdInvalid → (g.id, u.id) ∉ s.links id := by
    intro id hid hmem
    obtain ⟨n, v, hsome, -⟩ := (h.linked id hid g.id u.id).mp hmem
    rw [hjoins.new] at hsome
    cases hsome
  have hlinks : t.links =
      Function.update s.links client.id (s.links client.id ++ [(g.id, u.id)]) := by
    funext id
    rw [links, heffect.find]
    by_cases heq : id = client.id
    · have hlist : s.links client.id = client.groupUsers := by
        rw [links, hclient]
        rfl
      have hnot := hfresh client.id hid
      rw [hlist] at hnot
      rw [heq, Function.update_self, hclient, hlist]
      simp [joined, hnot]
    · rw [Function.update_of_ne heq, links]
      cases s.findClient id with
      | none => rfl
      | some c => simp [joined, heq]
  refine ⟨heffect.wellFormed, fun id hid' group user => ?_, fun id => ?_⟩
  · rw [hlinks, heffect.member]
    by_cases hgu : group = g.id ∧ user = u.id
    · obtain ⟨rfl, rfl⟩ := hgu
      rw [if_pos ⟨rfl, rfl⟩]
      by_cases heq : id = client.id
      · refine iff_of_true ?_ ⟨g.name, u, rfl, hjoins.owner.trans heq.symm⟩
        rw [heq, Function.update_self]
        exact List.mem_append_right _ (List.mem_singleton.mpr rfl)
      · refine iff_of_false ?_ ?_
        · rw [Function.update_of_ne heq]
          exact hfresh id hid'
        · intro ⟨n, v, hsome, hv⟩
          injection hsome with hsome
          rw [← (Prod.mk.inj hsome).2, hjoins.owner] at hv
          exact heq hv.symm
    · rw [if_neg hgu, ← h.linked id hid']
      by_cases heq : id = client.id
      · have hne : (group, user) ≠ (g.id, u.id) := fun he => hgu (Prod.mk.inj he)
        rw [heq, Function.update_self, List.mem_append, List.mem_singleton]
        exact or_iff_left hne
      · rw [Function.update_of_ne heq]
  · rw [hlinks]
    by_cases heq : id = client.id
    · rw [heq, Function.update_self]
      refine List.Nodup.append (h.nodup _) (List.nodup_singleton _) fun gu hgu hgu' => ?_
      rw [List.mem_singleton.mp hgu'] at hgu
      exact hfresh client.id hid hgu
    · rw [Function.update_of_ne heq]
      exact h.nodup id

/-- So a join keeps both in step, on all its paths. -/
theorem Consistent.doGroupJoin {s : Server} (h : s.Consistent) {client : ClientEndpoint}
    (hclient : s.findClient client.id = some client) (token : Int) {r : GroupJoinRequest}
    (response : GroupJoinResponse) (hr : s.CreatesUser r) :
    (s.doGroupJoin client token r response).Consistent := by
  have hid := h.client_ne_invalid hclient
  rcases doGroupJoin_cases h.toWellFormed hid token response hr with ⟨e, herror⟩ | ⟨g, u, hjoins⟩
  · exact h.of_eq herror (fun _ _ => rfl) id
  · exact h.joins hjoins hclient hid

/-- A new group has no members. -/
theorem Consistent.createGroup {s : Server} (h : s.Consistent) (name pwd : String)
    (metadata : Option AooData) (relay : Option IpHost) :
    (s.createGroup name pwd metadata relay).1.Consistent := by
  unfold Server.createGroup
  simp only
  split
  next t ht => exact h.of_eq (effect_addGroup h.toWellFormed rfl rfl rfl ht).1 (fun _ _ => rfl) id
  next => exact h.of_eq (effect_nextGroupId h.toWellFormed) (fun _ _ => rfl) id

/-- A user without a client is nobody's. -/
theorem Consistent.addUserToGroup {s : Server} (h : s.Consistent) (group : Int) (name pwd : String)
    (metadata : Option AooData) :
    (s.addUserToGroup group name pwd metadata).1.Consistent := by
  unfold Server.addUserToGroup
  split
  next => exact h
  next g hg =>
    rw [← (findGroup_mem hg).2] at hg
    cases hcount : g.getNextUserId with
    | mk id g₁ =>
    simp only
    split
    next g₂ hadd =>
      generalize hu : (⟨name, pwd, id, g₁.id, kAooIdInvalid, metadata, {}, kAooUserPersistent⟩ :
        User) = u at hadd
      have hid : u.id = id := by rw [← hu]
      subst hid
      obtain ⟨hadded, -, -, -, -, hfresh⟩ := effect_addUser h.toWellFormed hg hcount hadd
        (by rw [← hu]) (.inr (User.persistent_of_flags (by rw [← hu])))
      refine h.of_eq hadded (fun _ _ => rfl) fun hlinked => hlinked.inactive fun g' v => ?_
      by_cases heq : g' = g.id ∧ v = u.id
      · refine .inr ⟨fun n u' hsome => ?_, fun n u' hsome => ?_⟩
        · rw [heq.1, heq.2, member, hg, Option.bind_some, hfresh] at hsome
          cases hsome
        · rw [if_pos heq] at hsome
          injection hsome with hsome
          rw [← (Prod.mk.inj hsome).2, ← hu]
      · exact .inl (if_neg heq)
    next =>
      exact h.of_eq (effect_nextUserId h.toWellFormed hg hcount).1 (fun _ _ => rfl)
        fun hlinked => hlinked

/-- Metadata has nothing to do with the links between clients and groups. -/
theorem Consistent.annotates {s t : Server} (h : s.Consistent) (ht : Annotates s t) :
    t.Consistent := by
  cases ht with
  | refl => exact h
  | group hg md hout =>
    have hgroup := effect_groupMetadata h.toWellFormed hg md
    exact (h.of_eq hgroup (fun _ _ => rfl) id).sends hout
  | user hg id md hout =>
    obtain ⟨m, he, hm⟩ := effect_userMetadata h.toWellFormed hg id md
    exact (h.of_eq he (fun _ _ => rfl) fun hlinked => hlinked.same_client hm).sends hout

/-- Every request keeps both in step. -/
theorem Consistent.perform {s : Server} (h : s.Consistent) {client : ClientEndpoint} (token : Int)
    {r : Request} (response : Response)
    (hr : ∀ q, r = .groupJoin q → s.findClient client.id = some client ∧ s.CreatesUser q) :
    (s.perform client token r response).Consistent := by
  unfold Server.perform
  split
  next version _ _ metadata =>
    have hlogin := updates_modifyClient s client.id (f := fun c => { c with version }) fun _ => rfl
    refine (h.of_eq (hlogin.effect h.toWellFormed) (fun id c => ?_) fun hlinked => hlinked).sends
      (sends_send _ client.id (.login token aooGetVersionString client.id metadata))
    split <;> rfl
  next q q' => exact h.doGroupJoin (hr q rfl).1 token q' (hr q rfl).2
  next => exact h.doGroupLeave client token _
  next => exact h.annotates (annotates_doGroupUpdate ..)
  next => exact h.annotates (annotates_doUserUpdate ..)
  next => exact h.sends (sends_send ..)
  next => exact h

/-- The join that an action carries out, and for which client. -/
def Action.join (s : Server) : Action → Option (Int × GroupJoinRequest)
  | .handleMessage client m false =>
    match s.findClient client, s.checkRequest client m with
    | some c, .ok (.groupJoin r) => if c.active then some (client, r) else none
    | _, _ => none
  | .handleRequest client _ (.groupJoin r) (.ok _) =>
    if (s.findClient client).isSome then some (client, r) else none
  | _ => none

/-- The condition for a step: a join that is carried out creates its user. -/
def Action.CreatesUsers (s : Server) (a : Action) : Prop :=
  ∀ j ∈ a.join s, s.CreatesUser j.2

instance (s : Server) (a : Action) : Decidable (a.CreatesUsers s) :=
  inferInstanceAs (Decidable (∀ j ∈ a.join s, s.CreatesUser j.2))

/-- Only a message with a join becomes a join. -/
theorem groupJoin_of_checkRequest {s : Server} {client : Int} {m : ServerMessage}
    {r : GroupJoinRequest} (h : s.checkRequest client m = .ok (.groupJoin r)) :
    ∃ token q, m = .groupJoin token q ∧ s.checkGroupJoin q = .ok r := by
  unfold checkRequest at h
  split at h
  next =>
    split at h
    next => cases h
    next => split at h <;> cases h
  next token q =>
    cases hcheck : s.checkGroupJoin q with
    | error e =>
      rw [hcheck] at h
      cases h
    | ok q' =>
      rw [hcheck] at h
      cases h
      exact ⟨token, q, rfl, hcheck⟩
  next => cases h
  next _ group md =>
    cases hcheck : s.checkMember client group with
    | error e =>
      rw [hcheck] at h
      cases h
    | ok u =>
      rw [hcheck] at h
      cases h
  next _ group md =>
    cases hcheck : s.checkMember client group with
    | error e =>
      rw [hcheck] at h
      cases h
    | ok u =>
      rw [hcheck] at h
      cases h
  next => cases h
  next => cases h
  next => cases h

/-- Addresses have nothing to do with members. -/
theorem Consistent.noteAddresses {s : Server} (h : s.Consistent) (client : Int)
    (m : ServerMessage) : (s.noteAddresses client m).Consistent := by
  unfold Server.noteAddresses
  split
  next addresses =>
    have hnote := updates_modifyClient s client (f := fun c =>
      { c with publicAddresses := c.publicAddresses ++ addresses }) fun _ => rfl
    refine h.of_eq (hnote.effect h.toWellFormed) (fun id c => ?_) fun hlinked => hlinked
    split <;> rfl
  next => exact h

/-- Every message keeps both in step. -/
theorem Consistent.handleMessage {s : Server} (h : s.Consistent) (client : Int)
    (m : ServerMessage) (taken : Bool)
    (hC : Action.CreatesUsers s (.handleMessage client m taken)) :
    (s.handleMessage client m taken).Consistent := by
  unfold Server.handleMessage
  split
  next => exact h
  next c hc =>
    split
    next =>
      split
      next => exact h.removeClient client
      next =>
        split
        next => exact h.sends (sends_send ..)
        next => exact h
    next type token hreq =>
      split
      next => exact h.removeClient client
      next hlogin =>
        have hnote := h.noteAddresses client m
        simp only
        split
        next => exact hnote.sends (sends_sendError ..)
        next r hr =>
          unfold dispatch
          split
          next => exact hnote
          next htaken =>
            split
            next response hresponse =>
              refine hnote.perform token response fun q hq => ?_
              -- A join does not add addresses, so that the client is the one that was found.
              obtain ⟨token', q', rfl, -⟩ := groupJoin_of_checkRequest (hq ▸ hr)
              injection hreq with hreq
              have hactive : c.active = true := by
                by_contra hinactive
                rw [Bool.not_eq_true] at hinactive
                exact hlogin ⟨(Prod.mk.inj hreq).1 ▸ nofun, by rw [hinactive]; rfl⟩
              refine ⟨by rw [findClient_id hc]; exact hc, hC (client, q) ?_⟩
              have hcheck : s.checkRequest client (.groupJoin token' q') = .ok (.groupJoin q) :=
                hq ▸ hr
              rw [Bool.eq_false_iff.mpr htaken, Action.join, hc, hcheck]
              simp [hactive]
            next => exact hnote.sends (sends_sendError ..)

/-- So does every request that the user answers later. -/
theorem Consistent.handleRequest {s : Server} (h : s.Consistent) (client token : Int) (r : Request)
    (result : Except (AooError × Option (Int × String)) Response)
    (hC : Action.CreatesUsers s (.handleRequest client token r result)) :
    (s.handleRequest client token r result).Consistent := by
  unfold Server.handleRequest
  split
  next => exact h
  next c hc =>
    split
    next response =>
      refine h.perform token response fun q hq => ⟨by rw [findClient_id hc]; exact hc, ?_⟩
      subst hq
      refine hC (client, q) ?_
      simp [Action.join, hc]
    next => exact h.sends (sends_sendError ..)

/-- So does every step of the server. -/
theorem Consistent.step {s : Server} (h : s.Consistent) (a : Action)
    (hC : Action.CreatesUsers s a) : (s.step a).Consistent := by
  cases a with
  | acceptClient => exact h.acceptClient
  | removeClient client => exact h.removeClient client
  | handleMessage client m taken => exact h.handleMessage client m taken hC
  | handleRequest client token r result => exact h.handleRequest client token r result hC
  | addGroup name pwd metadata relay => exact h.createGroup name pwd metadata relay
  | removeGroup group => exact h.deleteGroup group
  | addUserToGroup group name pwd metadata => exact h.addUserToGroup group name pwd metadata
  | removeUserFromGroup group user => exact h.removeUserFromGroup group user
  | updateGroup group md => exact h.annotates (annotates_updateGroup s group md)
  | updateUser group user md => exact h.annotates (annotates_updateUser s group user md)

/-- A server that has been set up: there are no clients and groups yet. -/
structure Fresh (s : Server) : Prop where
  clients : s.clients = []
  groups : s.groups = []
  nextClient : 0 ≤ s.nextClientId
  nextGroup : 0 ≤ s.nextGroupId

/-- A new server has no members. -/
theorem Fresh.consistent {s : Server} (h : s.Fresh) : s.Consistent := by
  have hlinks : ∀ id, s.links id = [] := by
    intro id
    rw [links, findClient, h.clients]
    rfl
  have hmember : ∀ group user, s.member group user = none := by
    intro group user
    rw [member, findGroup, h.groups]
    rfl
  refine ⟨⟨?_, ?_, ?_, ?_, ?_, ?_, h.nextClient, h.nextGroup⟩, fun id _ group user => ?_,
    fun id => ?_⟩
  · simp [Keyed.Distinct, h.clients]
  · simp [h.clients]
  · simp [Keyed.Distinct, h.groups]
  · simp [Keyed.Distinct, h.groups]
  · simp [h.groups]
  · simp [h.groups]
  · rw [hlinks, hmember]
    simp
  · rw [hlinks]
    exact List.nodup_nil

/-- A client has a user of a group on its list if and only if there is such a group with
such a user, and the user is active with the id of the client; and every active user has a
client. -/
structure ReferentiallyConsistent (s : Server) : Prop where
  listed : ∀ c ∈ s.clients, ∀ group user, (group, user) ∈ c.groupUsers ↔
    ∃ g ∈ s.groups, g.id = group ∧ ∃ u ∈ g.users, u.id = user ∧ u.active = true ∧ u.client = c.id
  active : ∀ g ∈ s.groups, ∀ u ∈ g.users, u.active = true → ∃ c ∈ s.clients, c.id = u.client

/-- What clients remember exists, and what groups say is remembered. -/
theorem Consistent.referentially {s : Server} (h : s.Consistent) : s.ReferentiallyConsistent := by
  have hmember : ∀ g ∈ s.groups, ∀ u ∈ g.users, s.member g.id u.id = some (g.name, u) :=
    fun g hg u hu => member_of_find (h.groups.lookup hg) ((h.wellFormed g hg).findUser hu)
  refine ⟨fun c hc group user => ?_, fun g hg u hu hactive => ?_⟩
  · have hid := h.client_ne_invalid (h.clients.lookup hc)
    have hlist : s.links c.id = c.groupUsers := by
      rw [links, findClient, h.clients.lookup hc]
      rfl
    rw [← hlist, h.linked c.id hid]
    constructor
    · rintro ⟨n, u, hsome, hclient⟩
      obtain ⟨g, hg, hu, -⟩ := member_eq_some.mp hsome
      obtain ⟨hgmem, hgid⟩ := findGroup_mem hg
      obtain ⟨humem, huid⟩ := Group.findUser_mem hu
      refine ⟨g, hgmem, hgid, u, humem, huid, decide_eq_true ?_, hclient⟩
      rw [hclient]
      exact hid
    · rintro ⟨g, hg, hgid, u, hu, huid, _, hclient⟩
      subst hgid huid
      exact ⟨g.name, u, hmember g hg u hu, hclient⟩
  · have hid : u.client ≠ kAooIdInvalid := of_decide_eq_true hactive
    have hlisted := (h.linked u.client hid g.id u.id).mpr ⟨g.name, u, hmember g hg u hu, rfl⟩
    cases hc : s.findClient u.client with
    | none =>
      rw [links, hc] at hlisted
      cases hlisted
    | some c => exact ⟨c, Keyed.mem_of_lookup hc, findClient_id hc⟩

/-- **Membership on the server is consistent** in every state of a run in which each join
that is carried out creates its user. Ids are unbounded here: an `AooId` has 32 bits, so that
fewer than 2^31 of them may be drawn. -/
theorem membership_consistent (s : Server) (hs : s.Fresh) (as : List Action)
    (has : StepsAll Server.step Action.CreatesUsers s as) :
    ∀ bs, bs <+: as → (bs.foldl Server.step s).ReferentiallyConsistent := by
  intro bs hbs
  have hrun := StepsAll.invariant (I := Consistent) (fun _ a h hC => h.step a hC) hs.consistent has
  exact (hrun bs hbs).referentially

/-- A client connects and logs in. -/
def connectAction (client : Int) : List Action :=
  [.acceptClient, .handleMessage client (.login 0 "2.0" "" none []) false]

/-- A client joins a group as a user. -/
def joinAction (client token : Int) (group user : String) : Action :=
  .handleMessage client (.groupJoin token
    { groupName := group, groupPwd := none, groupMetadata := none, userName := user
      userPwd := none, userMetadata := none, relay := none }) false

/-- Two clients join a group, one of them also another; the first leaves, and the second is
disconnected. -/
def sampleRun : List Action :=
  connectAction 0 ++ connectAction 1 ++
    [joinAction 0 1 "a" "x", joinAction 1 1 "a" "y", joinAction 1 2 "b" "y",
      .handleMessage 0 (.groupLeave 2 0) false]

theorem consistent_sample :
    ((sampleRun.foldl Server.step {}).clients.map (·.groupUsers) = [[], [(0, 1), (1, 0)]]) ∧
      (sampleRun.foldl Server.step {}).ReferentiallyConsistent := by
  refine ⟨by decide +kernel, ?_⟩
  have hfresh : ({} : Server).Fresh := ⟨rfl, rfl, by decide, by decide⟩
  have hcreates : StepsAll Server.step (fun s a => Action.CreatesUsers s a) {} sampleRun := by
    decide +kernel
  exact membership_consistent {} hfresh sampleRun hcreates sampleRun (List.prefix_refl _)

/-- The user of the server adds a group and a user to it, and a client joins as this user:
the client has the user on its list, but the user has no client. -/
theorem persistent_user_without_client :
    let as := connectAction 0 ++ [.addGroup "a" "" none none, .addUserToGroup 0 "x" "" none,
      joinAction 0 1 "a" "x"]
    (as.foldl Server.step {}).clients.map (·.groupUsers) = [[(0, 0)]] ∧
      ((as.foldl Server.step {}).groups.map fun g => g.users.map (·.client)) = [[kAooIdInvalid]] ∧
      ¬ (as.foldl Server.step {}).ReferentiallyConsistent := by
  intro as
  have hclients : (as.foldl Server.step {}).clients.map (·.groupUsers) = [[(0, 0)]] := by
    decide +kernel
  have husers : ((as.foldl Server.step {}).groups.map fun g => g.users.map (·.client)) =
      [[kAooIdInvalid]] := by
    decide +kernel
  refine ⟨hclients, husers, fun h => ?_⟩
  generalize as.foldl Server.step {} = s at hclients husers h
  -- A client has the user on its list, but no user is active.
  obtain ⟨c, hc, hlist⟩ : ∃ c ∈ s.clients, c.groupUsers = [(0, 0)] :=
    List.mem_map.mp (by rw [hclients]; exact List.mem_singleton.mpr rfl)
  obtain ⟨g, hg, -, u, hu, -, hactive, -⟩ := (h.listed c hc 0 0).mp
    (by rw [hlist]; exact List.mem_singleton.mpr rfl)
  have hgroup : g.users.map (·.client) ∈ [[kAooIdInvalid]] := husers ▸ List.mem_map_of_mem hg
  have hclient : u.client ∈ [kAooIdInvalid] :=
    List.mem_singleton.mp hgroup ▸ List.mem_map_of_mem hu
  exact of_decide_eq_true hactive (List.mem_singleton.mp hclient)

end Server

end Aoo.Net
