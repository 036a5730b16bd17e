import Aoo.Net.Answers

/-!
# Updates of metadata

The metadata of a group or a user is updated by a request of a client (`do_group_update`,
`do_user_update`) or by the user of the server (`update_group`, `update_user`). The new metadata
is stored, the other members are told, and a client gets a reply.

Two things go wrong. The messages to the other members are built in the send buffer as it is,
so long metadata may not fit; the exception comes when the metadata is already stored, and a
client that has sent the request is removed. And `update_user` tells each of the other members
its own metadata.

Main result: `update_iff`.
-/

namespace Aoo.Net

open Lib

namespace Server

/-! ## Messages to the members -/

section

variable {T : AddressText} {s : Server}

/-- All messages fit. -/
theorem run_sendAllOps (st : Sending) (hsame : SameCore s st.server) {m : User → ClientMessage}
    (hextra : ∀ u, (m u).extra = 0) {us : List User}
    (hfits : ∀ u ∈ us, (s.findClient u.client).isSome → st.buffer.Fits ((m u).osc T))
    (ops : List Op) :
    run T st (s.sendAllOps us m ++ ops) = run T ⟨st.server.sendAll us m, st.buffer, st.sent ++
      ((us.filter fun u => (s.findClient u.client).isSome).map fun u => (u.client, m u))⟩ ops := by
  induction us generalizing st with
  | nil =>
    rw [List.filter_nil, List.map_nil, List.append_nil]
    rfl
  | cons u us ih =>
    rw [sendAllOps, List.flatMap_cons, ← sendAllOps, sendAll, List.foldl_cons, ← sendAll]
    cases hc : s.findClient u.client with
    | none =>
      rw [List.filter_cons_of_neg (by rw [hc]; decide), hsame.none hc]
      exact ih st hsame fun v hv => hfits v (List.mem_cons_of_mem u hv)
    | some c =>
      obtain ⟨c', hc', -⟩ := hsame.some hc
      have hfit : (st.buffer.start (m u).extra).Fits ((m u).osc T) := by
        rw [hextra]
        exact hfits u List.mem_cons_self (by rw [hc]; rfl)
      rw [List.filter_cons_of_pos (by rw [hc]; rfl), List.map_cons, hc']
      show run T st (.send c.id (m u) :: (s.sendAllOps us m ++ ops)) = _
      rw [run_send_of_fits st hfit, hextra, SendBuffer.start_zero, findClient_id hc]
      rw [ih ⟨st.server.send u.client (m u), st.buffer, st.sent ++ [(u.client, m u)]⟩
        (hsame.trans (sameCore_send st.server _ _))
        fun v hv => hfits v (List.mem_cons_of_mem u hv), List.append_assoc]
      simp only [findClient_id hc']
      rfl

/-- Some message does not fit, and those before it are sent. -/
theorem run_sendAllOps_error (st : Sending) {m : User → ClientMessage}
    (hextra : ∀ u, (m u).extra = 0) {us : List User}
    (hfits : ∃ u ∈ us, (s.findClient u.client).isSome ∧ ¬ st.buffer.Fits ((m u).osc T))
    (ops : List Op) :
    ∃ st' out, run T st (s.sendAllOps us m ++ ops) = .error st' ∧ Sends st.server st'.server out := by
  induction us generalizing st with
  | nil =>
    obtain ⟨u, hu, -⟩ := hfits
    cases hu
  | cons u us ih =>
    rw [sendAllOps, List.flatMap_cons, ← sendAllOps]
    obtain ⟨v, hv, hconnected, hnot⟩ := hfits
    have htail : v ≠ u → v ∈ us := fun hne => (List.mem_cons.mp hv).resolve_left hne
    cases hc : s.findClient u.client with
    | none =>
      refine ih st ⟨v, htail fun heq => ?_, hconnected, hnot⟩
      rw [heq, hc] at hconnected
      cases hconnected
    | some c =>
      show ∃ st' out, run T st (.send c.id (m u) :: (s.sendAllOps us m ++ ops)) = .error st' ∧ _
      by_cases hfit : (st.buffer.start (m u).extra).Fits ((m u).osc T)
      · rw [run_send_of_fits st hfit]
        rw [hextra, SendBuffer.start_zero] at hfit ⊢
        obtain ⟨st', out, heq, hsends⟩ := ih
          ⟨st.server.send c.id (m u), st.buffer, st.sent ++ [(c.id, m u)]⟩
          ⟨v, htail fun heq => hnot (heq ▸ hfit), hconnected, hnot⟩
        exact ⟨st', _, heq, (sends_send st.server c.id (m u)).trans hsends⟩
      · rw [run_send_of_not_fits hfit]
        exact ⟨_, _, rfl, .refl st.server⟩

theorem wellFormed_closeGroupUser (hs : s.WellFormed) (gu : Int × Int) :
    (s.closeGroupUser gu).WellFormed := by
  cases hg : s.findGroup gu.1 with
  | none =>
    rw [closeGroupUser, hg]
    exact hs
  | some g =>
    cases hu : g.findUser gu.2 with
    | none =>
      rw [closeGroupUser, hg]
      simp only [hu]
      exact hs
    | some u =>
      have hgroup := (findGroup_mem hg).2
      have huser := (Group.findUser_mem hu).2
      rw [← hgroup] at hg
      rw [← huser] at hu
      have heffect := effect_closeGroupUser hs hg hu
      rw [hgroup, huser] at heffect
      exact heffect.wellFormed

/-- A client that is removed is gone. -/
theorem findClient_removeClient (hs : s.WellFormed) {id : Int} (hc : (s.findClient id).isSome) :
    (s.removeClient id).findClient id = none := by
  obtain ⟨c, hc⟩ := Option.isSome_iff_exists.mp hc
  have hclose : (c.groupUsers.foldl closeGroupUser s).WellFormed :=
    List.foldlRecOn _ _ hs fun _ ht gu _ => wellFormed_closeGroupUser ht gu
  have hlookup := hclose.clients.lookup_remove (k := id) id
  rw [removeClient, hc]
  exact hlookup.trans (if_pos rfl)

end

/-! ## The four updates -/

/-- What is updated, and by whom. -/
inductive Update
  | groupByClient (c : ClientEndpoint) (token : Int)
  | groupByServer
  | userByClient (c : ClientEndpoint) (token : Int)
  | userByServer

namespace Update

/-- The steps of the update of a group, or of a user in it. -/
def ops (s : Server) (g : Group) (u : User) (md : AooData) : Update → List Op
  | groupByClient c token => s.doGroupUpdateOps c token g.id md
  | groupByServer => s.updateGroupOps g md
  | userByClient c token => s.doUserUpdateOps c token g.id u.id md
  | userByServer => s.updateUserOps g u md

/-- What an exception leads to: the client is removed, or the user of the server gets it. -/
def failed : Update → Sending → Server
  | groupByClient c _, st | userByClient c _, st => st.server.removeClient c.id
  | groupByServer, st | userByServer, st => st.server

/-- A message with the new metadata. -/
def changed (pattern : ClientPattern) (group user : Int) (md : AooData) : OscMessage :=
  ⟨.client pattern, [.int32 group, .int32 user, .int32 md.type, .blob md.data]⟩

/-- The reply with the new metadata. -/
def reply (pattern : ClientPattern) (token : Int) (md : AooData) : OscMessage :=
  ⟨.client pattern, [.int32 token, .int32 kAooErrorNone, .int32 md.type, .blob md.data]⟩

end Update

/-- A user is connected. -/
def connected (s : Server) (u : User) : Bool := (s.findClient u.client).isSome

/-- The other members of the group that are connected. -/
def others (s : Server) (g : Group) (u : User) : List User :=
  g.users.filter fun p => p.id ≠ u.id && s.connected p

namespace Update

/-- What should be sent, and to whom: one message about the group or the user to every other
member, and one to the user that is updated or has made the update. -/
def expected (s : Server) (g : Group) (u : User) (md : AooData) : Update → List (Int × OscMessage)
  | groupByClient c token =>
    (s.others g u).map (fun p => (p.client, changed .groupChanged g.id u.id md)) ++
      [(c.id, reply .groupUpdate token md)]
  | groupByServer =>
    (g.users.filter s.connected).map fun p =>
      (p.client, changed .groupChanged g.id kAooIdInvalid md)
  | userByClient c token =>
    (s.others g u).map (fun p => (p.client, changed .peerChanged g.id u.id md)) ++
      [(c.id, reply .userUpdate token md)]
  | userByServer =>
    (g.users.filter s.connected).map fun p =>
      (p.client, changed (if p.id = u.id then .userChanged else .peerChanged) g.id u.id md)

/-- The group with the new metadata. -/
def stored (g : Group) (u : User) (md : AooData) : Update → Group
  | groupByClient .. | groupByServer => { g with metadata := some md }
  | userByClient .. | userByServer => g.modifyUser u.id fun u => { u with metadata := some md }

/-- The update is made and announced as it should, or it fails and nothing has happened. -/
def Right (T : AddressText) (s : Server) (b : SendBuffer) (g : Group) (u : User) (md : AooData)
    (x : Update) : Prop :=
  match run T ⟨s, b, []⟩ (x.ops s g u md) with
  | .ok st =>
    st.server.findGroup g.id = some (x.stored g u md) ∧
      st.sent.map (fun p => (p.1, p.2.osc T)) = x.expected s g u md
  | .error st =>
    (x.failed st).groups = s.groups ∧
      ∀ id, (s.findClient id).isSome → ((x.failed st).findClient id).isSome

end Update


/-! ## When an update is right -/

section

variable {T : AddressText} {s : Server} {b : SendBuffer} {g : Group} {u : User} {md : AooData}

/-- A message that ends with metadata says its type and its bytes. -/
theorem osc_of_typed {m : ClientMessage} {x y : OscArg}
    (hargs : m.args T = [x, y] ++ oscMetadata (some md)) (h : md.type ≠ kAooDataUnspecified) :
    m.osc T = ⟨.client m.pattern, [x, y, .int32 md.type, .blob md.data]⟩ := by
  rw [ClientMessage.osc, hargs, oscMetadata, if_pos h]
  rfl

/-- But it says nothing if the type is not specified. -/
theorem osc_of_not_typed {m : ClientMessage} {x y : OscArg}
    (hargs : m.args T = [x, y] ++ oscMetadata (some md)) (h : ¬ md.type ≠ kAooDataUnspecified) :
    m.osc T = ⟨.client m.pattern, [x, y, .nil, .nil]⟩ := by
  rw [ClientMessage.osc, hargs, oscMetadata, if_neg h]
  rfl

theorem osc_eq_iff (md : AooData) {m : ClientMessage} {x y : OscArg}
    (hargs : m.args T = [x, y] ++ oscMetadata (some md)) :
    m.osc T = ⟨.client m.pattern, [x, y, .int32 md.type, .blob md.data]⟩ ↔
      md.type ≠ kAooDataUnspecified := by
  refine ⟨fun heq h => ?_, osc_of_typed hargs⟩
  rw [osc_of_not_typed hargs (not_not_intro h)] at heq
  cases heq

/-- The metadata of the group is set. -/
theorem stored_setGroupMetadata (hg : s.findGroup g.id = some g) (md : AooData) :
    (Op.apply s (setGroupMetadata g md)).findGroup g.id = some { g with metadata := some md } := by
  have hfind := findGroup_modifyGroup (s := s)
    (f := fun g => { g with metadata := some md }) (fun g' _ (_ : g'.id = g.id) => rfl) g.id
  rw [if_pos rfl, hg] at hfind
  exact hfind

theorem stored_setUserMetadata (hg : s.findGroup g.id = some g) (u : User) (md : AooData) :
    (Op.apply s (setUserMetadata g u md)).findGroup g.id =
      some (g.modifyUser u.id fun u => { u with metadata := some md }) := by
  have hfind := findGroup_modifyGroup (s := s)
    (f := fun g => g.modifyUser u.id fun u => { u with metadata := some md })
    (fun g' _ (_ : g'.id = g.id) => rfl) g.id
  rw [if_pos rfl, hg] at hfind
  exact hfind

theorem wellFormed_setGroupMetadata (hs : s.WellFormed) (g : Group) (md : AooData) :
    (Op.apply s (setGroupMetadata g md)).WellFormed :=
  hs.modifyGroup fun g' hg' _ => by
    have h := hs.wellFormed g' hg'
    exact ⟨rfl, rfl, h.ids, h.names, h.present, h.range, h.group, h.next⟩

theorem wellFormed_setUserMetadata (hs : s.WellFormed) (g : Group) (u : User) (md : AooData) :
    (Op.apply s (setUserMetadata g u md)).WellFormed :=
  hs.modifyGroup fun g' hg' _ => by
    have h := hs.wellFormed g' hg'
    exact ⟨rfl, rfl, h.modifyUser u.id (fun _ => ⟨rfl, rfl, rfl⟩) fun v hv _ => h.present v hv⟩

theorem findGroup_sends {t t' : Server} {out : Int → List ClientMessage} (h : Sends t t' out)
    (id : Int) : t'.findGroup id = t.findGroup id :=
  congrArg (Keyed.lookup Group.id id) h.groups

/-- **An update by a client**: metadata is set by `set`, then `m` is sent to some users, and then the
reply. It is right if and only if nothing is thrown and the messages are the right ones. -/
theorem right_byClient_iff {set : Op} {us : List User} {m reply : ClientMessage}
    {c : ClientEndpoint} {stored : Group} {expected : List (Int × OscMessage)}
    (hwf : (Op.apply s set).WellFormed) (hsame : SameCore s (Op.apply s set))
    (hset : ∀ st : Sending, Op.run T st set = .ok { st with server := Op.apply st.server set })
    (hstored : (Op.apply s set).findGroup g.id = some stored) (hc : s.findClient c.id = some c)
    (hextra : m.extra = 0) (hreply : (b.start reply.extra).Fits (reply.osc T)) :
    (match run T ⟨s, b, []⟩ (set :: (s.sendAllOps us (fun _ => m) ++ [.send c.id reply])) with
      | .ok st => st.server.findGroup g.id = some stored ∧
          st.sent.map (fun p => (p.1, p.2.osc T)) = expected
      | .error st => (st.server.removeClient c.id).groups = s.groups ∧
          ∀ id, (s.findClient id).isSome → ((st.server.removeClient c.id).findClient id).isSome) ↔
      ((us.filter s.connected ≠ [] → b.Fits (m.osc T)) ∧
        (us.filter s.connected).map (fun p => (p.client, m.osc T)) ++ [(c.id, reply.osc T)] =
          expected) := by
  have hrun : run T ⟨s, b, []⟩ (set :: (s.sendAllOps us (fun _ => m) ++ [.send c.id reply])) =
      run T ⟨Op.apply s set, b, []⟩ (s.sendAllOps us (fun _ => m) ++ [.send c.id reply]) := by
    show Op.run T ⟨s, b, []⟩ set >>= _ = _
    rw [hset]
    rfl
  rw [hrun]
  by_cases hfits : us.filter s.connected ≠ [] → b.Fits (m.osc T)
  · have hall : ∀ v ∈ us, (s.findClient v.client).isSome → b.Fits (m.osc T) := fun v hv hv' =>
      hfits (List.ne_nil_of_mem (List.mem_filter.mpr ⟨hv, hv'⟩))
    have hsent : ∀ (t : Server) (sent : List (Int × ClientMessage)),
        run T ⟨t, b, sent⟩ [.send c.id reply] =
          .ok ⟨t.send c.id reply, b.start reply.extra, sent ++ [(c.id, reply)]⟩ :=
      fun t sent => run_send_of_fits ⟨t, b, sent⟩ hreply []
    rw [run_sendAllOps ⟨Op.apply s set, b, []⟩ hsame (fun _ => hextra) hall, hsent]
    have hsends : Sends (Op.apply s set)
        (((Op.apply s set).sendAll us fun _ => m).send c.id reply) _ :=
      (sends_sendAll _ us _).trans (sends_send _ c.id reply)
    show (((Op.apply s set).sendAll us fun _ => m).send c.id reply).findGroup g.id = some stored ∧
      (([] ++ (us.filter s.connected).map fun p : User => (p.client, m)) ++ [(c.id, reply)]).map _ =
        expected ↔ _
    rw [findGroup_sends hsends, hstored, List.nil_append, List.map_append, List.map_map]
    exact ⟨fun h => ⟨hfits, h.2⟩, fun h => ⟨rfl, h.2⟩⟩
  · obtain ⟨hne, hnot⟩ := Classical.not_imp.mp hfits
    obtain ⟨v, hv⟩ := List.exists_mem_of_ne_nil _ hne
    obtain ⟨hv, hv'⟩ := List.mem_filter.mp hv
    obtain ⟨st, out, herror, hsends⟩ := run_sendAllOps_error (T := T) (s := s)
      ⟨Op.apply s set, b, []⟩ (fun _ => hextra) ⟨v, hv, hv', hnot⟩ [.send c.id reply]
    rw [herror]
    refine iff_of_false (fun h => ?_) fun h => hfits h.1
    -- The client is removed.
    have hconnected : (st.server.findClient c.id).isSome := by
      obtain ⟨c', hc', -⟩ := hsame.some hc
      rw [hsends.find, hc']
      rfl
    have hgone := findClient_removeClient (hwf.updates hsends) hconnected
    have hkept := h.2 c.id (by rw [hc]; rfl)
    rw [hgone] at hkept
    cases hkept

/-- **An update by the user of the server**: metadata is set, and then some users are told. -/
theorem right_byServer_iff {set : Op} {us : List User} {m : User → ClientMessage} {stored : Group}
    {expected : List (Int × OscMessage)} (hsame : SameCore s (Op.apply s set))
    (hset : ∀ st : Sending, Op.run T st set = .ok { st with server := Op.apply st.server set })
    (hstored : (Op.apply s set).findGroup g.id = some stored) (hextra : ∀ p, (m p).extra = 0) :
    (match run T ⟨s, b, []⟩ (set :: s.sendAllOps us m) with
      | .ok st => st.server.findGroup g.id = some stored ∧
          st.sent.map (fun p => (p.1, p.2.osc T)) = expected
      | .error st => st.server.groups = s.groups ∧
          ∀ id, (s.findClient id).isSome → (st.server.findClient id).isSome) ↔
      if ∀ p ∈ us.filter s.connected, b.Fits ((m p).osc T) then
        (us.filter s.connected).map (fun p => (p.client, (m p).osc T)) = expected
      else (Op.apply s set).groups = s.groups := by
  have hrun : run T ⟨s, b, []⟩ (set :: s.sendAllOps us m) =
      run T ⟨Op.apply s set, b, []⟩ (s.sendAllOps us m ++ []) := by
    show Op.run T ⟨s, b, []⟩ set >>= _ = _
    rw [hset, List.append_nil]
    rfl
  rw [hrun]
  by_cases hfits : ∀ p ∈ us.filter s.connected, b.Fits ((m p).osc T)
  · have hall : ∀ v ∈ us, (s.findClient v.client).isSome → b.Fits ((m v).osc T) := fun v hv hv' =>
      hfits v (List.mem_filter.mpr ⟨hv, hv'⟩)
    rw [if_pos hfits, run_sendAllOps ⟨Op.apply s set, b, []⟩ hsame hextra hall]
    show ((Op.apply s set).sendAll us m).findGroup g.id = some stored ∧
      ([] ++ (us.filter s.connected).map fun p : User => (p.client, m p)).map _ = expected ↔ _
    rw [findGroup_sends (sends_sendAll _ us m), hstored, List.nil_append, List.map_map]
    exact ⟨fun h => h.2, fun h => ⟨rfl, h⟩⟩
  · rw [if_neg hfits]
    simp only [not_forall] at hfits
    obtain ⟨v, hv, hnot⟩ := hfits
    obtain ⟨hv, hv'⟩ := List.mem_filter.mp hv
    obtain ⟨st, out, herror, hsends⟩ := run_sendAllOps_error (T := T) (s := s)
      ⟨Op.apply s set, b, []⟩ hextra ⟨v, hv, hv', hnot⟩ []
    rw [herror]
    show st.server.groups = s.groups ∧ _ ↔ _
    rw [hsends.groups]
    refine ⟨fun h => h.1, fun h => ⟨h, fun id hid => ?_⟩⟩
    obtain ⟨c, hc⟩ := Option.isSome_iff_exists.mp hid
    obtain ⟨c', hc', -⟩ := hsame.some hc
    show (st.server.findClient id).isSome = true
    rw [hsends.find, hc']
    rfl

/-- New metadata for a group is a change unless it is the old. -/
theorem setGroupMetadata_eq_iff (hs : s.WellFormed) (hg : s.findGroup g.id = some g)
    (md : AooData) :
    (Op.apply s (setGroupMetadata g md)).groups = s.groups ↔ g.metadata = some md := by
  constructor
  · intro h
    have hfind : (Op.apply s (setGroupMetadata g md)).findGroup g.id = s.findGroup g.id :=
      congrArg (Keyed.lookup Group.id g.id) h
    rw [stored_setGroupMetadata hg, hg] at hfind
    exact (congrArg Group.metadata (Option.some.inj hfind)).symm
  · intro h
    refine Keyed.adjust_eq_self fun g' hg' hid => ?_
    rw [hs.groups.eq hg' (findGroup_mem hg).1 hid, ← h]

/-- New metadata for a user is a change unless it is the old. -/
theorem setUserMetadata_eq_iff (hs : s.WellFormed) (hg : s.findGroup g.id = some g)
    (hu : g.findUser u.id = some u) (md : AooData) :
    (Op.apply s (setUserMetadata g u md)).groups = s.groups ↔ u.metadata = some md := by
  have hwf := hs.wellFormed g (findGroup_mem hg).1
  constructor
  · intro h
    have hfind : (Op.apply s (setUserMetadata g u md)).findGroup g.id = s.findGroup g.id :=
      congrArg (Keyed.lookup Group.id g.id) h
    rw [stored_setUserMetadata hg, hg] at hfind
    have huser : (g.modifyUser u.id fun u => { u with metadata := some md }).findUser u.id =
        g.findUser u.id :=
      congrArg (Group.findUser · u.id) (Option.some.inj hfind)
    rw [findUser_modifyUser (f := fun u => { u with metadata := some md }) fun _ => rfl, if_pos rfl,
      hu] at huser
    exact (congrArg User.metadata (Option.some.inj huser)).symm
  · intro h
    refine Keyed.adjust_eq_self fun g' hg' hid => ?_
    rw [hs.groups.eq hg' (findGroup_mem hg).1 hid, Group.modifyUser]
    have husers : Keyed.adjust User.id u.id (fun u => { u with metadata := some md }) g.users =
        g.users := by
      refine Keyed.adjust_eq_self fun v hv hid => ?_
      rw [hwf.ids.eq hv (Group.findUser_mem hu).1 hid, ← h]
    rw [husers]

end

namespace Update

/-- The user that an update is for, or that has made it. -/
def By (s : Server) (g : Group) (u : User) : Update → Prop
  | groupByClient c _ | userByClient c _ =>
    s.findClient c.id = some c ∧ g.findUserByClient c.id = some u
  | groupByServer => True
  | userByServer => g.findUser u.id = some u

/-- What `update_user` says to a member. -/
def said (u : User) (md : AooData) (p : User) : ClientMessage :=
  if p.id = u.id then .userChanged p.group p.id (some md) else .peerChanged p.group p.id p.metadata

/-- The updates that are right: the message to the others fits in the buffer, or there are no
others; the metadata has a type; and a client that updates a group has no other user
in it. The server must not update a user that is not alone. When the server's own update
throws, it does no harm if the metadata was the same before. -/
def Sound (T : AddressText) (s : Server) (b : SendBuffer) (g : Group) (u : User) (md : AooData) :
    Update → Prop
  | groupByClient c _ =>
    md.type ≠ kAooDataUnspecified ∧ (∀ p ∈ s.others g u, p.client ≠ c.id) ∧
      (s.others g u ≠ [] → b.Fits (changed .groupChanged g.id u.id md))
  | groupByServer =>
    g.users.filter s.connected ≠ [] → md.type ≠ kAooDataUnspecified ∧
      (b.Fits (changed .groupChanged g.id kAooIdInvalid md) ∨ g.metadata = some md)
  | userByClient _ _ =>
    md.type ≠ kAooDataUnspecified ∧
      (s.others g u ≠ [] → b.Fits (changed .peerChanged g.id u.id md))
  | userByServer =>
    if ∀ p ∈ g.users.filter s.connected, b.Fits ((said u md p).osc T) then
      s.others g u = [] ∧ (s.connected u = true → md.type ≠ kAooDataUnspecified)
    else u.metadata = some md

end Update

section

variable {T : AddressText} {s : Server} {b : SendBuffer} {g : Group} {u : User} {md : AooData}

theorem right_groupByClient_iff (hs : s.WellFormed) (hg : s.findGroup g.id = some g)
    {c : ClientEndpoint} (hc : s.findClient c.id = some c) (hu : g.findUserByClient c.id = some u)
    (token : Int) :
    (Update.groupByClient c token).Right T s b g u md ↔
      (Update.groupByClient c token).Sound T s b g u md := by
  have hwf := hs.wellFormed g (findGroup_mem hg).1
  have hclient : u.client = c.id := Keyed.key_of_lookup hu
  -- The users that are told are those with another client.
  have hothers : (∀ p ∈ s.others g u, p.client ≠ c.id) ↔
      (g.users.filter fun p => p.client ≠ c.id).filter s.connected = s.others g u := by
    rw [List.filter_filter, others]
    constructor
    · intro h
      refine List.filter_congr fun p hp => ?_
      cases hconnected : s.connected p with
      | false => simp
      | true =>
        by_cases hid : p.id = u.id
        · rw [hwf.ids.eq hp (Keyed.mem_of_lookup hu) hid]
          simp [hclient]
        · have := h p (List.mem_filter.mpr ⟨hp, by simp [hid, hconnected]⟩)
          simp [hid, this]
    · intro h p hp
      rw [← h] at hp
      exact of_decide_eq_true (Bool.and_eq_true_iff.mp (List.mem_filter.mp hp).2).2
  have hreply := osc_eq_iff md (T := T) (m := .groupUpdate token (some md)) rfl
  have hchanged := osc_eq_iff md (T := T) (m := .groupChanged g.id u.id (some md)) rfl
  unfold Update.Right
  rw [Update.ops, doGroupUpdateOps, hg]
  simp only [hu]
  refine (right_byClient_iff (wellFormed_setGroupMetadata hs g md)
    (sameCore_setGroupMetadata s g md) (fun _ => rfl) (stored_setGroupMetadata hg md) hc rfl
    (b.fits_update T rfl rfl)).trans ?_
  rw [Update.Sound, Update.expected, hothers]
  constructor
  · rintro ⟨hfits, heq⟩
    obtain ⟨hlist, hlast⟩ := List.append_inj' heq rfl
    have htyped := hreply.mp (Prod.mk.inj (List.cons.inj hlast).1).2
    rw [hchanged.mpr htyped] at hfits hlist
    have hclients : ((g.users.filter fun p => p.client ≠ c.id).filter s.connected).map User.client =
        (s.others g u).map User.client := by
      have := congrArg (List.map Prod.fst) hlist
      simpa only [List.map_map, Function.comp_def] using this
    have hsame := hothers.mp fun p hp hpc => by
      have hmem : c.id ∈ ((g.users.filter fun p => p.client ≠ c.id).filter s.connected).map
          User.client := by
        rw [hclients, ← hpc]
        exact List.mem_map_of_mem hp
      obtain ⟨q, hq, hqc⟩ := List.mem_map.mp hmem
      exact absurd hqc (by simpa using (List.mem_filter.mp (List.mem_filter.mp hq).1).2)
    rw [hsame] at hfits
    exact ⟨htyped, hsame, hfits⟩
  · rintro ⟨htyped, hsame, hfits⟩
    rw [hsame, hchanged.mpr htyped, hreply.mpr htyped]
    exact ⟨hfits, rfl⟩

theorem right_userByClient_iff (hs : s.WellFormed) (hg : s.findGroup g.id = some g)
    {c : ClientEndpoint} (hc : s.findClient c.id = some c) (hu : g.findUserByClient c.id = some u)
    (token : Int) :
    (Update.userByClient c token).Right T s b g u md ↔
      (Update.userByClient c token).Sound T s b g u md := by
  have hwf := hs.wellFormed g (findGroup_mem hg).1
  have hmem : u ∈ g.users := Keyed.mem_of_lookup hu
  have hothers : (g.users.filter fun p => p.id ≠ u.id).filter s.connected = s.others g u := by
    rw [List.filter_filter, others]
    exact List.filter_congr fun p _ => Bool.and_comm ..
  have hreply := osc_eq_iff md (T := T) (m := .userUpdate token (some md)) rfl
  have hchanged := osc_eq_iff md (T := T) (m := .peerChanged u.group u.id (some md)) rfl
  unfold Update.Right
  rw [Update.ops, doUserUpdateOps, hg]
  simp only [hwf.findUser hmem]
  refine (right_byClient_iff (wellFormed_setUserMetadata hs g u md)
    (sameCore_setUserMetadata s g u md) (fun _ => rfl) (stored_setUserMetadata hg u md) hc rfl
    (b.fits_update T rfl rfl)).trans ?_
  rw [Update.Sound, Update.expected, hothers, ← hwf.group u hmem]
  constructor
  · rintro ⟨hfits, heq⟩
    have htyped := hreply.mp (Prod.mk.inj (List.cons.inj (List.append_inj' heq rfl).2).1).2
    rw [hchanged.mpr htyped] at hfits
    exact ⟨htyped, hfits⟩
  · rintro ⟨htyped, hfits⟩
    rw [hchanged.mpr htyped, hreply.mpr htyped]
    exact ⟨hfits, rfl⟩

theorem right_groupByServer_iff (hs : s.WellFormed) (hg : s.findGroup g.id = some g) :
    Update.groupByServer.Right T s b g u md ↔ Update.groupByServer.Sound T s b g u md := by
  have hchanged : (ClientMessage.groupChanged g.id kAooIdInvalid (some md)).osc T =
      Update.changed .groupChanged g.id kAooIdInvalid md ↔ md.type ≠ kAooDataUnspecified :=
    osc_eq_iff md rfl
  unfold Update.Right
  rw [Update.ops, updateGroupOps]
  refine (right_byServer_iff (sameCore_setGroupMetadata s g md) (fun _ => rfl)
    (stored_setGroupMetadata hg md) fun _ => rfl).trans ?_
  rw [setGroupMetadata_eq_iff hs hg, Update.Sound, Update.expected]
  by_cases hnone : g.users.filter s.connected = []
  · rw [hnone, if_pos (by simp)]
    exact iff_of_true rfl fun h => absurd rfl h
  · obtain ⟨p, hp⟩ := List.exists_mem_of_ne_nil _ hnone
    simp only [ne_eq, hnone, not_false_eq_true, forall_const]
    by_cases htyped : md.type ≠ kAooDataUnspecified
    · rw [hchanged.mpr htyped]
      by_cases hfits : b.Fits (Update.changed .groupChanged g.id kAooIdInvalid md)
      · rw [if_pos fun _ _ => hfits]
        exact iff_of_true rfl ⟨htyped, .inl hfits⟩
      · rw [if_neg fun h => hfits (h p hp)]
        exact ⟨fun h => ⟨htyped, .inr h⟩, fun h => h.2.resolve_left hfits⟩
    · have hsmall : b.Fits ((ClientMessage.groupChanged g.id kAooIdInvalid (some md)).osc T) := by
        rw [osc_of_not_typed rfl htyped]
        exact SendBuffer.fits_start b 0 (by
          show pad4 (11 + strlen "/group/changed" + 1) + pad4 (4 + 2) + (4 + (4 + (0 + (0 + 0)))) ≤ _
          decide)
      rw [if_pos fun _ _ => hsmall]
      refine iff_of_false (fun h => ?_) fun h => htyped h.1
      have hpair := List.map_inj_left.mp h p hp
      exact htyped (hchanged.mp (Prod.mk.inj hpair).2)

theorem right_userByServer_iff (hs : s.WellFormed) (hg : s.findGroup g.id = some g)
    (hu : g.findUser u.id = some u) :
    Update.userByServer.Right T s b g u md ↔ Update.userByServer.Sound T s b g u md := by
  have hwf := hs.wellFormed g (findGroup_mem hg).1
  have hmem := (Group.findUser_mem hu).1
  have hextra : ∀ p, (Update.said u md p).extra = 0 := by
    intro p
    unfold Update.said
    split <;> rfl
  have hchanged : (ClientMessage.userChanged u.group u.id (some md)).osc T =
      Update.changed .userChanged u.group u.id md ↔ md.type ≠ kAooDataUnspecified :=
    osc_eq_iff md rfl
  unfold Update.Right
  rw [Update.ops, updateUserOps]
  refine (right_byServer_iff (m := Update.said u md) (sameCore_setUserMetadata s g u md)
    (fun _ => rfl) (stored_setUserMetadata hg u md) hextra).trans ?_
  rw [setUserMetadata_eq_iff hs hg hu, Update.Sound, Update.expected, ← hwf.group u hmem]
  by_cases hfits : ∀ p ∈ g.users.filter s.connected, b.Fits ((Update.said u md p).osc T)
  case neg => rw [if_neg hfits, if_neg hfits]
  rw [if_pos hfits, if_pos hfits, List.map_inj_left]
  constructor
  · intro h
    refine ⟨?_, fun hconnected => ?_⟩
    · -- Another member would be told about itself.
      refine List.eq_nil_iff_forall_not_mem.mpr fun p hp => ?_
      obtain ⟨hp, hp'⟩ := List.mem_filter.mp hp
      obtain ⟨hid, hconnected⟩ := Bool.and_eq_true_iff.mp hp'
      have hne : p.id ≠ u.id := of_decide_eq_true hid
      have hsaid := (Prod.mk.inj (h p (List.mem_filter.mpr ⟨hp, hconnected⟩))).2
      rw [Update.said, if_neg hne, if_neg hne] at hsaid
      have hargs := congrArg OscMessage.args hsaid
      exact hne (OscArg.int32.inj (List.cons.inj (List.cons.inj hargs).2).1)
    · have hsaid := (Prod.mk.inj (h u (List.mem_filter.mpr ⟨hmem, hconnected⟩))).2
      rw [Update.said, if_pos rfl, if_pos rfl] at hsaid
      exact hchanged.mp hsaid
  · rintro ⟨hnone, htyped⟩ p hp
    obtain ⟨hp, hconnected⟩ := List.mem_filter.mp hp
    have hid : p.id = u.id := by
      by_contra hne
      have hother : p ∈ s.others g u :=
        List.mem_filter.mpr ⟨hp, Bool.and_eq_true_iff.mpr ⟨decide_eq_true hne, hconnected⟩⟩
      rw [hnone] at hother
      exact absurd hother List.not_mem_nil
    have heq : p = u := hwf.ids.eq hp hmem hid
    subst heq
    rw [Update.said, if_pos rfl, if_pos rfl, hchanged.mpr (htyped hconnected)]

end

/-- **An update reaches the members with the right content**, or fails without effect, if and only if
it is `Sound`. -/
theorem update_iff (T : AddressText) {s : Server} (hs : s.WellFormed) (b : SendBuffer) {g : Group}
    (hg : s.findGroup g.id = some g) (u : User) (md : AooData) (x : Update) (hx : x.By s g u) :
    x.Right T s b g u md ↔ x.Sound T s b g u md := by
  cases x with
  | groupByClient c token => exact right_groupByClient_iff hs hg hx.1 hx.2 token
  | groupByServer => exact right_groupByServer_iff hs hg
  | userByClient c token => exact right_userByClient_iff hs hg hx.1 hx.2 token
  | userByServer => exact right_userByServer_iff hs hg hx


/-- Short metadata for the group reaches both users. -/
theorem update_bandGroup :
    (Update.groupByClient drummer 7).Right sampleText band initialBuffer bandGroup drums
      ⟨1, [104, 105]⟩ := by
  refine (update_iff sampleText wellFormed_band initialBuffer (by decide) drums ⟨1, [104, 105]⟩
    (.groupByClient drummer 7) ⟨by decide, by decide⟩).mpr ?_
  exact ⟨by decide, by decide, fun _ => by decide +kernel⟩

/-- Metadata of this size does not fit in the buffer of a new server. -/
theorem not_fits_groupChanged {md : AooData} (h : 4092 < md.data.length) (group user : Int) :
    ¬ initialBuffer.Fits (Update.changed .groupChanged group user md) := by
  intro hfits
  have hsize : pad4 (11 + strlen "/group/changed" + 1) + pad4 (4 + 2) +
    (4 + (4 + (4 + (4 + pad4 md.data.length + 0)))) ≤ 4092 := hfits
  have hpad : md.data.length ≤ pad4 md.data.length := by
    unfold pad4
    omega
  omega

theorem groupByClient_tooLong {md : AooData} (h : 4092 < md.data.length) :
    ¬ (Update.groupByClient drummer 7).Right sampleText band initialBuffer bandGroup drums md := by
  intro hright
  have hsound := (right_groupByClient_iff (u := drums) wellFormed_band (g := bandGroup)
    (c := drummer) (by decide) (by decide) (by decide) 7).mp hright
  exact not_fits_groupChanged h _ _ (hsound.2.2 (by decide))

/-- A client is thrown out for long metadata, and an update of its user by the server goes wrong in
any case. -/
theorem update_band_wrong :
    (¬ (Update.groupByClient drummer 7).Right sampleText band initialBuffer bandGroup drums
        ⟨1, List.replicate 5000 0⟩) ∧
      ¬ Update.userByServer.Right sampleText band initialBuffer bandGroup drums ⟨1, [104, 105]⟩ := by
  constructor
  · apply groupByClient_tooLong
    rw [List.length_replicate]
    omega
  · intro h
    have hsound := (right_userByServer_iff wellFormed_band (g := bandGroup) (by decide)
      (by decide)).mp h
    revert hsound
    unfold Update.Sound
    decide +kernel

end Server

end Aoo.Net
