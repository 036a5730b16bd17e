import Aoo.Net.Membership

/-!
# Names and ids on the server

Groups and users are found by id and by name, so both have to be unique. A group id
is never given out twice, also where the group is not created in the end; the id of a
user that has left is given to the next one. Unlike the memberships, this does not depend on
which users a join finds (`Sound.step` has no condition on the action), and a group that was created
for a join has a user from then on until it is removed.

`Server::close` forgets the clients and the groups and keeps the counters: a run after it is one of
a server that has just been set up.

Main result: `names_unique_run`.
-/

namespace Aoo.Net

open Lib

namespace Server

/-- Ids and names are unique, and a group that is not persistent has users. -/
structure Sound (s : Server) : Prop extends s.WellFormed where
  populated : ∀ g ∈ s.groups, g.persistent = true ∨ g.users ≠ []

variable {s t : Server} {g : Group} {u : User}

/-! ## What does not touch the groups -/

/-- Names are a matter of the groups. -/
theorem Sound.of_groups (h : s.Sound) (ht : t.WellFormed) (hgroups : t.groups = s.groups) :
    t.Sound := by
  refine ⟨ht, ?_⟩
  rw [hgroups]
  exact h.populated

/-- So they stay when clients change. -/
theorem Sound.updates {f : Int → ClientEndpoint → ClientEndpoint} (h : s.Sound)
    (hu : Updates s t f) : t.Sound :=
  h.of_groups (h.toWellFormed.updates hu) hu.groups

/-- They stay when a client comes. -/
theorem Sound.acceptClient (h : s.Sound) : s.acceptClient.Sound := by
  have hnext := h.nextClient
  refine h.of_groups ⟨?_, fun id hid => ?_, h.groups, h.names, h.groupRange, h.wellFormed, ?_,
    h.nextGroup⟩ rfl
  · refine h.clients.append fun c hc heq => ?_
    have hrange := (h.clientRange c.id (List.mem_map_of_mem hc)).2
    exact absurd heq (Int.ne_of_lt hrange)
  · change 0 ≤ id ∧ id < s.nextClientId + 1
    change id ∈ List.map ClientEndpoint.id (s.clients ++ [_]) at hid
    rw [List.map_append] at hid
    rcases List.mem_append.mp hid with hold | hnew
    · have hrange := h.clientRange id hold
      omega
    · rw [List.mem_singleton.mp hnew]
      change 0 ≤ s.nextClientId ∧ s.nextClientId < s.nextClientId + 1
      omega
  · change 0 ≤ s.nextClientId + 1
    omega

/-! ## What happens to one group -/

/-- A group is changed, and does not lose its last user. -/
theorem Sound.modifyGroup (h : s.Sound) {f : Group → Group} (hg : s.findGroup g.id = some g)
    (ht : (s.modifyGroup g.id f).WellFormed)
    (hf : (f g).persistent = true ∨ (f g).users ≠ []) : (s.modifyGroup g.id f).Sound := by
  refine ⟨ht, fun g' hg' => ?_⟩
  rcases Keyed.mem_adjust.mp hg' with ⟨hold, -⟩ | ⟨g₀, hold, hid, rfl⟩
  · exact h.populated g' hold
  · rw [h.groups.eq hold (findGroup_mem hg).1 hid]
    exact hf

/-- The group that a user has left is removed. -/
theorem removeGroup_left (hg : s.findGroup g.id = some g) (user : Int) :
    ∃ t, (s.modifyGroup g.id fun g => g.removeUser user).removeGroup g.id = some t ∧
      t.groups = Keyed.remove Group.id g.id
        (s.modifyGroup g.id fun g => g.removeUser user).groups := by
  have hfind : (s.modifyGroup g.id fun g => g.removeUser user).findGroup g.id =
      some (g.removeUser user) := by
    rw [findGroup_modifyGroup (f := fun g => g.removeUser user) fun _ _ _ => rfl, if_pos rfl, hg]
    rfl
  unfold removeGroup
  rw [hfind]
  refine ⟨_, rfl, ?_⟩
  have heject := updates_ejectAll (s.modifyGroup g.id fun g => g.removeUser user)
    (g.removeUser user).id (g.removeUser user).users
  exact congrArg (Keyed.remove Group.id g.id) heject.groups

/-- A user that leaves does not change the ids of the groups. -/
theorem distinct_left (hs : s.WellFormed) (group user : Int) :
    Keyed.Distinct Group.id (s.modifyGroup group fun g => g.removeUser user).groups :=
  (hs.modifyGroup (f := fun g => g.removeUser user) fun g hg _ =>
    ⟨rfl, rfl, (hs.wellFormed g hg).removeUser user⟩).groups

/-- **A group goes with its last user**, unless the group or the user is persistent. -/
theorem findGroup_last (hs : s.WellFormed) (hg : s.findGroup g.id = some g) (hu : g.users = [u])
    (hgroup : g.persistent = false) (huser : u.persistent = false) :
    (s.doRemoveUserFromGroup g u).findGroup g.id = none := by
  have hempty : (g.removeUser u.id).users = [] := by
    simp [Group.removeUser, hu, Keyed.remove]
  obtain ⟨t, ht, hgroups⟩ := removeGroup_left hg u.id
  unfold doRemoveUserFromGroup
  simp only [huser, hgroup, hempty, ht]
  change t.findGroup g.id = none
  rw [findGroup, hgroups]
  exact ((distinct_left hs g.id u.id).lookup_remove g.id).trans (if_pos rfl)

/-- The names stay unique when a user leaves. -/
theorem Sound.doRemove (h : s.Sound) (hg : s.findGroup g.id = some g)
    (hu : g.findUser u.id = some u) : (s.doRemoveUserFromGroup g u).Sound := by
  have hresult := (effect_doRemove h.toWellFormed hg hu).wellFormed
  unfold doRemoveUserFromGroup at hresult ⊢
  split
  next hp =>
    rw [if_pos hp] at hresult
    refine h.modifyGroup hg hresult (.inr fun hnil => ?_)
    have hmem := (Group.findUser_mem hu).1
    rw [List.map_eq_nil_iff.mp hnil] at hmem
    exact absurd hmem List.not_mem_nil
  next hp =>
    rw [if_neg hp] at hresult
    simp only at hresult ⊢
    split
    next hempty =>
      rw [if_pos hempty] at hresult
      obtain ⟨t, ht, hgroups⟩ := removeGroup_left hg u.id
      rw [ht, Option.getD_some] at hresult ⊢
      refine ⟨hresult, fun g' hg' => ?_⟩
      -- The groups that are left are those that were not changed.
      rw [hgroups] at hg'
      obtain ⟨hmem, hne⟩ := (distinct_left h.toWellFormed g.id u.id).mem_remove.mp hg'
      rcases Keyed.mem_adjust.mp hmem with ⟨hold, -⟩ | ⟨g₀, -, hid, rfl⟩
      · exact h.populated g' hold
      · exact absurd hid hne
    next hkept =>
      rw [if_neg hkept] at hresult
      refine h.modifyGroup hg hresult ?_
      by_cases hpersistent : g.persistent = true
      · exact .inl hpersistent
      · refine .inr fun hnil => hkept ⟨hpersistent, ?_⟩
        rw [hnil]
        rfl

/-- A user whose client has taken it from its list. -/
theorem Sound.leave {f : Int → ClientEndpoint → ClientEndpoint} (h : s.Sound)
    (hg : s.findGroup g.id = some g) (hu : g.findUser u.id = some u) (hupdate : Updates s t f) :
    (t.doRemoveUserFromGroup g u).Sound := by
  refine (h.updates hupdate).doRemove ?_ hu
  rw [findGroup, hupdate.groups]
  exact hg

/-! ## The operations -/

/-- Names stay unique when the client of a user is gone. -/
theorem Sound.closeGroupUser (h : s.Sound) (gu : Int × Int) : (s.closeGroupUser gu).Sound := by
  unfold Server.closeGroupUser
  split
  next => exact h
  next g hg =>
    rw [← (findGroup_mem hg).2] at hg
    split
    next => exact h
    next u hu =>
      rw [← (Group.findUser_mem hu).2] at hu
      exact h.leave hg hu (sends_onUserLeftGroup s g u)

/-- The groups that go while the users of a client leave one after the other. -/
theorem Sound.removeClient (h : s.Sound) (id : Int) : (s.removeClient id).Sound := by
  unfold Server.removeClient
  split
  next => exact h
  next client _ =>
    have ht : (client.groupUsers.foldl Server.closeGroupUser s).Sound :=
      List.foldlRecOn _ _ h fun _ ht gu _ => ht.closeGroupUser gu
    generalize client.groupUsers.foldl Server.closeGroupUser s = t at ht
    refine ht.of_groups ⟨ht.clients.remove, fun id' hid' => ?_, ht.groups, ht.names, ht.groupRange,
      ht.wellFormed, ht.nextClient, ht.nextGroup⟩ rfl
    obtain ⟨c, hc, rfl⟩ := List.mem_map.mp hid'
    exact ht.clientRange _ (List.mem_map_of_mem (Keyed.mem_of_mem_remove hc))

/-- Names stay unique when a user asks to leave. -/
theorem Sound.doGroupLeave (h : s.Sound) (client : ClientEndpoint) (token group : Int) :
    (s.doGroupLeave client token group).Sound := by
  unfold Server.doGroupLeave
  split
  next => exact h.updates (sends_sendError ..)
  next g hg =>
    split
    next => exact h.updates (sends_sendError ..)
    next u hu =>
      have hu' := (h.wellFormed g (findGroup_mem hg).1).findUser (Keyed.mem_of_lookup hu)
      rw [← (findGroup_mem hg).2] at hg
      have hleave := updates_onGroupLeave (s.onUserLeftGroup g u) client.id g.id u.id false
      exact (h.leave hg hu' (Updates.trans (sends_onUserLeftGroup s g u) hleave)).updates
        (sends_send ..)

/-- And when the server removes a user. -/
theorem Sound.removeUserFromGroup (h : s.Sound) (group user : Int) :
    (s.removeUserFromGroup group user).1.Sound := by
  unfold Server.removeUserFromGroup
  split
  next => exact h
  next g hg =>
    rw [← (findGroup_mem hg).2] at hg
    split
    next => exact h
    next u hu =>
      rw [← (Group.findUser_mem hu).2] at hu
      simp only
      split
      next =>
        exact h.leave hg hu ((updates_ejectUser s g.id u).trans (sends_onUserLeftGroup _ g u))
      next => exact h.doRemove hg hu

/-- A deleted group takes its names with it. -/
theorem Sound.deleteGroup (h : s.Sound) (id : Int) : (s.deleteGroup id).1.Sound := by
  unfold Server.deleteGroup
  cases hg : s.findGroup id with
  | none =>
    rw [Server.removeGroup, hg]
    exact h
  | some g =>
    obtain ⟨t, ht, heffect⟩ := effect_removeGroup h.toWellFormed hg
    rw [ht]
    refine ⟨heffect.wellFormed, fun g' hg' => ?_⟩
    unfold Server.removeGroup at ht
    rw [hg] at ht
    cases ht
    refine h.populated g' ?_
    rw [← (updates_ejectAll s g.id g.users).groups]
    exact Keyed.mem_of_mem_remove hg'

/-- A persistent group is added. -/
theorem Sound.createGroup (h : s.Sound) (name pwd : String) (metadata : Option AooData)
    (relay : Option IpHost) : (s.createGroup name pwd metadata relay).1.Sound := by
  unfold Server.createGroup
  simp only
  split
  next t ht =>
    refine ⟨(effect_addGroup h.toWellFormed rfl rfl rfl ht).1.wellFormed, fun g hg => ?_⟩
    unfold addGroup at ht
    split at ht
    next => cases ht
    next =>
      cases ht
      rcases List.mem_append.mp hg with hold | hnew
      · exact h.populated g hold
      · rw [List.mem_singleton.mp hnew]
        refine .inl ?_
        change hasBit kAooGroupPersistent kAooGroupPersistent = true
        decide
  next => exact h.of_groups (effect_nextGroupId h.toWellFormed).wellFormed rfl

/-! ## New users -/

/-- The group `id` may be a new one that has no users yet. -/
def PopulatedBut (s : Server) (id : Int) : Prop :=
  ∀ g ∈ s.groups, g.id ≠ id → g.persistent = true ∨ g.users ≠ []

/-- A group under construction may be empty for a moment. -/
theorem PopulatedBut.setGroup {g₁ : Group} (h : s.PopulatedBut g₁.id) :
    (s.modifyGroup g₁.id fun _ => g₁).PopulatedBut g₁.id := by
  intro g hg hne
  rcases Keyed.mem_adjust.mp hg with ⟨hold, -⟩ | ⟨-, -, -, rfl⟩
  · exact h g hold hne
  · exact absurd rfl hne

/-- The group is complete. -/
theorem PopulatedBut.sound {g₁ : Group} (h : s.PopulatedBut g₁.id)
    (ht : (s.modifyGroup g₁.id fun _ => g₁).WellFormed)
    (hpopulated : g₁.persistent = true ∨ g₁.users ≠ []) :
    (s.modifyGroup g₁.id fun _ => g₁).Sound := by
  refine ⟨ht, fun g hg => ?_⟩
  rcases Keyed.mem_adjust.mp hg with ⟨hold, hne⟩ | ⟨-, -, -, rfl⟩
  · exact h g hold hne
  · exact hpopulated

/-- An id was taken for a user that is not added then. -/
theorem PopulatedBut.nextUser {g₁ : Group} {id : Int} (h : s.PopulatedBut g.id)
    (hs : s.WellFormed) (hg : s.findGroup g.id = some g) (hcount : g.getNextUserId = (id, g₁))
    (hpopulated : g.persistent = true ∨ g.users ≠ []) :
    (s.modifyGroup g₁.id fun _ => g₁).Sound := by
  obtain ⟨heffect, -⟩ := effect_nextUserId hs hg hcount
  obtain ⟨⟨n, hn, -⟩, -⟩ := (hs.wellFormed g (findGroup_mem hg).1).getNextUserId hcount
  refine PopulatedBut.sound ?_ heffect.wellFormed ?_
  · rw [hn]
    exact h
  · rw [hn]
    exact hpopulated

/-- With its first user it is populated. -/
theorem PopulatedBut.addUser {g₁ g₂ : Group} (h : s.PopulatedBut g.id) (hs : s.WellFormed)
    (hg : s.findGroup g.id = some g) (hcount : g.getNextUserId = (u.id, g₁))
    (hadd : g₁.addUser u = some g₂) (hu : u.group = g₁.id)
    (hpresent : u.active = true ∨ u.persistent = true) :
    ((s.modifyGroup g₁.id fun _ => g₁).modifyGroup g₂.id fun _ => g₂).Sound := by
  obtain ⟨heffect, -, hid₂, -, husers, -⟩ := effect_addUser hs hg hcount hadd hu hpresent
  obtain ⟨-, -, hid₁, -⟩ := effect_nextUserId hs hg hcount
  have hbut : s.PopulatedBut g₁.id := hid₁.symm ▸ h
  refine PopulatedBut.sound (hid₂.trans hid₁.symm ▸ hbut.setGroup) heffect.wellFormed (.inr ?_)
  rw [husers]
  exact List.append_ne_nil_of_right_ne_nil _ (List.cons_ne_nil _ _)

/-- A sound server has no empty group but those of the server. -/
theorem Sound.populatedBut (h : s.Sound) (id : Int) : s.PopulatedBut id :=
  fun g hg _ => h.populated g hg

/-- A persistent user is added. -/
theorem Sound.addUserToGroup (h : s.Sound) (group : Int) (name pwd : String)
    (metadata : Option AooData) : (s.addUserToGroup group name pwd metadata).1.Sound := by
  unfold Server.addUserToGroup
  split
  next => exact h
  next g hg =>
    have hpopulated := h.populated g (findGroup_mem hg).1
    rw [← (findGroup_mem hg).2] at hg
    cases hcount : g.getNextUserId with
    | mk id g₁ =>
    simp only
    split
    next g₂ hadd =>
      generalize hu : (⟨name, pwd, id, g₁.id, kAooIdInvalid, metadata, {}, kAooUserPersistent⟩ :
        User) = u at hadd
      have hid : u.id = id := by rw [← hu]
      subst hid
      exact (h.populatedBut g.id).addUser h.toWellFormed hg hcount hadd (by rw [← hu])
        (.inr (User.persistent_of_flags (by rw [← hu])))
    next => exact (h.populatedBut g.id).nextUser h.toWellFormed hg hcount hpopulated

/-- The group of a join: it has users, unless it was created for it. -/
theorem populatedBut_findOrCreateGroup (h : s.Sound) (r : GroupJoinRequest)
    (response : GroupJoinResponse) :
    ∀ g created, (s.findOrCreateGroup r response).2 = some (g, created) →
      (s.findOrCreateGroup r response).1.PopulatedBut g.id := by
  intro g created heq
  unfold findOrCreateGroup at heq ⊢
  split at heq
  next => exact h.populatedBut g.id
  next hnone =>
    simp only at heq ⊢
    unfold addGroup at heq ⊢
    split at heq
    next t ht =>
      split at ht
      next => cases ht
      next hname =>
        cases ht
        cases heq
        intro g' hg' hne
        rcases List.mem_append.mp hg' with hold | hnew
        · exact h.populated g' hold
        · rw [List.mem_singleton.mp hnew] at hne
          exact absurd rfl hne
    next => cases heq

/-- **A join keeps names and ids unique**, whichever user it finds. -/
theorem Sound.doGroupJoin (h : s.Sound) {client : ClientEndpoint}
    (hclient : client.id ≠ kAooIdInvalid) (token : Int) (r : GroupJoinRequest)
    (response : GroupJoinResponse) : (s.doGroupJoin client token r response).Sound := by
  obtain ⟨hcreate, hgroup⟩ := effect_findOrCreateGroup h.toWellFormed r response
  have hbut := populatedBut_findOrCreateGroup h r response
  unfold Server.doGroupJoin
  split
  next t heq =>
    have hgroups : t.groups = s.groups := by
      unfold findOrCreateGroup addGroup at heq
      split at heq
      next => cases heq
      next =>
        simp only at heq
        split at heq
        next ht =>
          cases heq
        next =>
          cases heq
          rfl
    rw [heq] at hcreate
    exact (h.of_groups hcreate.wellFormed hgroups).updates (sends_sendError ..)
  next t g created heq =>
    rw [heq] at hcreate hgroup hbut
    obtain ⟨hg, -⟩ := hgroup g created rfl
    replace hg : t.findGroup g.id = some g := hg
    replace hbut : t.PopulatedBut g.id := hbut g created rfl
    split
    next u hu =>
      -- The group has this user.
      have hsound : t.Sound := by
        refine ⟨hcreate.wellFormed, fun g' hg' => ?_⟩
        by_cases hid : g'.id = g.id
        · rw [hcreate.wellFormed.groups.eq hg' (findGroup_mem hg).1 hid]
          exact .inr (List.ne_nil_of_mem (Group.findUser_mem hu).1)
        · exact hbut g' hg' hid
      exact hsound.updates (updates_finishGroupJoin ..)
    next =>
      cases hcount : g.getNextUserId with
      | mk id g₁ =>
      simp only
      split
      next hadd =>
        -- There is a user with the name.
        refine (hbut.nextUser hcreate.wellFormed hg hcount (.inr fun hnil => ?_)).updates
          (sends_sendError ..)
        obtain ⟨-, -, -, -, husers⟩ := effect_nextUserId hcreate.wellFormed hg hcount
        unfold Group.addUser Group.findUserByName at hadd
        rw [husers, hnil] at hadd
        cases hadd
      next g₂ hadd =>
        generalize hu : newUser client.id id g₁.id created r response = u at hadd
        have hid : u.id = id := by rw [← hu, newUser]
        subst hid
        refine (hbut.addUser hcreate.wellFormed hg hcount hadd (by rw [← hu, newUser]) ?_).updates
          (updates_finishGroupJoin ..)
        exact .inl (decide_eq_true (by rw [← hu]; exact hclient))

/-! ## Runs -/

/-- Metadata has nothing to do with names. -/
theorem Sound.annotates (h : s.Sound) (ht : Annotates s t) : t.Sound := by
  cases ht with
  | refl => exact h
  | group hg md hout =>
    have hpopulated := h.populated _ (findGroup_mem hg).1
    exact (h.modifyGroup hg (effect_groupMetadata h.toWellFormed hg md).wellFormed
      hpopulated).updates hout
  | user hg id md hout =>
    obtain ⟨m, heffect, -⟩ := effect_userMetadata h.toWellFormed hg id md
    refine (h.modifyGroup hg heffect.wellFormed ?_).updates hout
    rcases h.populated _ (findGroup_mem hg).1 with hpersistent | husers
    · exact .inl hpersistent
    · exact .inr fun hnil => husers (List.map_eq_nil_iff.mp hnil)

/-- Every request keeps the names unique. -/
theorem Sound.perform (h : s.Sound) {client : ClientEndpoint} (hclient : client.id ≠ kAooIdInvalid)
    (token : Int) (r : Request) (response : Response) :
    (s.perform client token r response).Sound := by
  unfold Server.perform
  split
  next version _ _ metadata =>
    have hlogin := updates_modifyClient s client.id (f := fun c => { c with version }) fun _ => rfl
    exact (h.updates hlogin).updates (sends_send ..)
  next q q' => exact h.doGroupJoin hclient token q q'
  next => exact h.doGroupLeave client token _
  next => exact h.annotates (annotates_doGroupUpdate ..)
  next => exact h.annotates (annotates_doUserUpdate ..)
  next => exact h.updates (sends_send ..)
  next => exact h

/-- Addresses are no names. -/
theorem Sound.noteAddresses (h : s.Sound) (client : Int) (m : ServerMessage) :
    (s.noteAddresses client m).Sound := by
  unfold Server.noteAddresses
  split
  next addresses =>
    exact h.updates (updates_modifyClient s client (f := fun c =>
      { c with publicAddresses := c.publicAddresses ++ addresses }) fun _ => rfl)
  next => exact h

/-- Every message keeps them. -/
theorem Sound.handleMessage (h : s.Sound) (client : Int) (m : ServerMessage) (taken : Bool) :
    (s.handleMessage client m taken).Sound := by
  unfold Server.handleMessage
  split
  next => exact h
  next c hc =>
    have hclient : c.id ≠ kAooIdInvalid := by
      rw [findClient_id hc]
      exact h.client_ne_invalid hc
    split
    next =>
      split
      next => exact h.removeClient client
      next =>
        split
        next => exact h.updates (sends_send ..)
        next => exact h
    next type token hreq =>
      split
      next => exact h.removeClient client
      next =>
        have hnote := h.noteAddresses client m
        simp only
        split
        next => exact hnote.updates (sends_sendError ..)
        next r hr =>
          unfold dispatch
          split
          next => exact hnote
          next =>
            split
            next response _ => exact hnote.perform hclient token r response
            next => exact hnote.updates (sends_sendError ..)

/-- So does every request that the user answers later. -/
theorem Sound.handleRequest (h : s.Sound) (client token : Int) (r : Request)
    (result : Except (AooError × Option (Int × String)) Response) :
    (s.handleRequest client token r result).Sound := by
  unfold Server.handleRequest
  split
  next => exact h
  next c hc =>
    split
    next response =>
      refine h.perform ?_ token r response
      rw [findClient_id hc]
      exact h.client_ne_invalid hc
    next => exact h.updates (sends_sendError ..)

/-- Each action keeps names and ids unique. -/
theorem Sound.step (h : s.Sound) (a : Action) : (s.step a).Sound := by
  cases a with
  | acceptClient => exact h.acceptClient
  | removeClient client => exact h.removeClient client
  | handleMessage client m taken => exact h.handleMessage client m taken
  | handleRequest client token r result => exact h.handleRequest client token r result
  | addGroup name pwd metadata relay => exact h.createGroup name pwd metadata relay
  | removeGroup group => exact h.deleteGroup group
  | addUserToGroup group name pwd metadata => exact h.addUserToGroup group name pwd metadata
  | removeUserFromGroup group user => exact h.removeUserFromGroup group user
  | updateGroup group md => exact h.annotates (annotates_updateGroup s group md)
  | updateUser group user md => exact h.annotates (annotates_updateUser s group user md)

/-- A new server has no names. -/
theorem Fresh.sound (h : s.Fresh) : s.Sound := by
  refine ⟨h.consistent.toWellFormed, ?_⟩
  rw [h.groups]
  exact List.forall_mem_nil _

/-- Names and ids are unique, `get_next_user_id` returns an id that is not in use, and a group that
is not persistent goes with its last user. -/
structure NamesUnique (s : Server) : Prop where
  groupIds : s.groups.Pairwise fun g h => g.id ≠ h.id
  groupNames : s.groups.Pairwise fun g h => g.name ≠ h.name
  userIds : ∀ g ∈ s.groups, g.users.Pairwise fun u v => u.id ≠ v.id
  userNames : ∀ g ∈ s.groups, g.users.Pairwise fun u v => u.name ≠ v.name
  nextUserId : ∀ g ∈ s.groups, ∀ u ∈ g.users, u.id ≠ g.getNextUserId.1
  last : ∀ g ∈ s.groups, ∀ u, g.users = [u] → g.persistent = false → u.persistent = false →
    (s.doRemoveUserFromGroup g u).findGroup g.id = none
  populated : ∀ g ∈ s.groups, g.persistent = true ∨ g.users ≠ []

/-- A sound server has unique names. -/
theorem Sound.namesUnique (h : s.Sound) : s.NamesUnique where
  groupIds := List.pairwise_map.mp h.groups
  groupNames := List.pairwise_map.mp h.names
  userIds g hg := List.pairwise_map.mp (h.wellFormed g hg).ids
  userNames g hg := List.pairwise_map.mp (h.wellFormed g hg).names
  nextUserId g hg := ((h.wellFormed g hg).getNextUserId rfl).2
  last _ hg _ := findGroup_last h.toWellFormed (h.groups.lookup hg)
  populated := h.populated

/-- **Names and ids are unique on the server** after any actions, and no group is left behind that
is neither persistent nor has users. As in the rest of the server, ids are unbounded, and fewer
than 2^31 of them may be drawn. -/
theorem names_unique_run (s : Server) (hs : s.Fresh) (as : List Action) :
    (as.foldl Server.step s).NamesUnique := by
  suffices hgen : ∀ s : Server, s.Sound → (as.foldl Server.step s).Sound from
    (hgen s hs.sound).namesUnique
  induction as with
  | nil => exact fun s h => h
  | cons a as ih => exact fun s h => ih _ (h.step a)

/-- A user leaves, the next one gets its id, and the group goes with the last one. -/
theorem names_unique_reclaimed :
    let as := connectAction 0 ++ connectAction 1 ++
      [joinAction 0 1 "a" "x", joinAction 1 1 "a" "y", .handleMessage 0 (.groupLeave 2 0) false,
        joinAction 0 3 "a" "z"]
    ((as.foldl Server.step {}).groups.map fun g => g.users.map fun u => (u.id, u.name)) =
        [[(1, "y"), (0, "z")]] ∧
      ((as ++ [Action.removeClient 0, Action.removeClient 1]).foldl Server.step {}).groups = [] ∧
      (as.foldl Server.step {}).NamesUnique :=
  ⟨by decide +kernel, by decide +kernel, names_unique_run {} ⟨rfl, rfl, by decide, by decide⟩ _⟩

end Server

end Aoo.Net
