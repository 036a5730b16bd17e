import Aoo.Net.Sending

/-!
# Answers to requests

Each request of a client has a token, and the client keeps the request until there is an answer
with this token. The server answers most requests, whether they succeed or not. It does not
answer

* an update by a client that is not in the group, because `send_error` has no pattern for it,
* a client that is not logged in, which is thrown out instead,
* a request where a message that must be sent before the answer, or the answer itself, is too
  long for the send buffer.

Main result: `answered_once_iff`.
-/

namespace Aoo.Net

open Lib

/-- The token of the request that a message answers. -/
def ClientMessage.answers : ClientMessage → Option Int
  | .login token .. | .groupJoin token _ | .groupLeave token | .groupUpdate token _
  | .userUpdate token _ | .request token .. | .error _ token .. => some token
  | .peerJoin _ | .peerLeave .. | .groupChanged .. | .userChanged .. | .peerChanged ..
  | .groupEject _ | .pong => none

namespace Server

/-- The number of answers with a token that a client is sent. -/
def answersTo (client token : Int) (sent : List (Int × ClientMessage)) : Nat :=
  sent.countP fun p => p.1 = client && p.2.answers = some token

/-- The end of `handle_client_data`: a client whose message leads to an exception is removed. -/
def outcome (client : Int) : Except Sending Sending → Sending
  | .ok st => st
  | .error st => { st with server := st.server.removeClient client }

/-- The server handles the request in a message. -/
def handleRequestMessage (T : AddressText) (s : Server) (b : SendBuffer) (c : ClientEndpoint)
    (m : ServerMessage) (type : RequestType) (token : Int) : Sending :=
  outcome c.id (run T ⟨s, b, []⟩ (s.handleMessageOps c m type token))

/-! ## What is sent -/

/-- The messages that are sent before the first that does not fit. -/
def sentBy (T : AddressText) : SendBuffer → List Op → List (Int × ClientMessage)
  | _, [] => []
  | b, .modify _ :: ops => sentBy T b ops
  | b, .send client m :: ops =>
    if (b.start m.extra).Fits (m.osc T) then (client, m) :: sentBy T (b.start m.extra) ops else []

theorem outcome_sent (T : AddressText) (client : Int) (st : Sending) (ops : List Op) :
    (outcome client (run T st ops)).sent = st.sent ++ sentBy T st.buffer ops := by
  induction ops generalizing st with
  | nil => exact (List.append_nil _).symm
  | cons op ops ih =>
    cases op with
    | modify f => exact ih { st with server := f st.server }
    | send dst m =>
      rw [sentBy]
      split
      next hfits =>
        rw [run_send_of_fits _ hfits, ih, List.append_assoc]
        rfl
      next hfits =>
        rw [run_send_of_not_fits hfits]
        exact (List.append_nil _).symm

section

variable {T : AddressText} {b : SendBuffer} {client token : Int}

theorem answersTo_cons (p : Int × ClientMessage) (sent : List (Int × ClientMessage)) :
    answersTo client token (p :: sent) =
      (if p.1 = client ∧ p.2.answers = some token then 1 else 0) + answersTo client token sent := by
  rw [answersTo, List.countP_cons, Nat.add_comm]
  simp only [Bool.and_eq_true, decide_eq_true_eq]
  rfl

/-- Nothing but the answer itself is counted. -/
theorem answersTo_sentBy_eq_zero {ops : List Op}
    (h : ∀ dst m, .send dst m ∈ ops → m.answers = none) :
    answersTo client token (sentBy T b ops) = 0 := by
  induction ops generalizing b with
  | nil => rfl
  | cons op ops ih =>
    have hrest := fun b => ih (b := b) fun dst m hm => h dst m (List.mem_cons_of_mem _ hm)
    cases op with
    | modify f => exact hrest b
    | send dst m =>
      rw [sentBy]
      split
      next =>
        rw [answersTo_cons, hrest, h dst m List.mem_cons_self]
        simp
      next => rfl

theorem answersTo_answer {m : ClientMessage} (hm : m.answers = some token)
    (hfits : (b.start m.extra).Fits (m.osc T)) {ops : List Op}
    (hops : ∀ dst m, .send dst m ∈ ops → m.answers = none) :
    answersTo client token (sentBy T b (.send client m :: ops)) = 1 := by
  rw [sentBy, if_pos hfits, answersTo_cons, if_pos ⟨rfl, hm⟩, answersTo_sentBy_eq_zero hops]

/-- A message to some users, of which only the contents depend on the user. -/
theorem sentBy_sendAllOps (s : Server) {m : User → ClientMessage} (hextra : ∀ u, (m u).extra = 0)
    {us : List User} (hfits : ∀ u ∈ us, (s.findClient u.client).isSome → b.Fits ((m u).osc T))
    (ops : List Op) :
    sentBy T b (s.sendAllOps us m ++ ops) =
      ((us.filter fun u => (s.findClient u.client).isSome).map fun u => (u.client, m u)) ++
        sentBy T b ops := by
  induction us with
  | nil => rfl
  | cons u us ih =>
    have hrest := ih fun v hv => hfits v (List.mem_cons_of_mem u hv)
    rw [sendAllOps, List.flatMap_cons, ← sendAllOps]
    cases hc : s.findClient u.client with
    | none =>
      rw [List.filter_cons_of_neg (by rw [hc]; decide)]
      exact hrest
    | some c =>
      have hfit : b.Fits ((m u).osc T) := hfits u List.mem_cons_self (by rw [hc]; rfl)
      rw [List.filter_cons_of_pos (by rw [hc]; rfl), List.map_cons]
      show sentBy T b (.send c.id (m u) :: (s.sendAllOps us m ++ ops)) = _
      rw [sentBy, hextra, SendBuffer.start_zero, if_pos hfit, findClient_id hc, hrest]
      rfl

/-- The first message does not fit. -/
theorem sentBy_sendAllOps_of_not_fits (s : Server) {m : ClientMessage} (hextra : m.extra = 0)
    (hfits : ¬ b.Fits (m.osc T)) {us : List User}
    (hus : ∃ u ∈ us, (s.findClient u.client).isSome) (ops : List Op) :
    sentBy T b (s.sendAllOps us (fun _ => m) ++ ops) = [] := by
  induction us with
  | nil =>
    obtain ⟨u, hu, -⟩ := hus
    cases hu
  | cons u us ih =>
    rw [sendAllOps, List.flatMap_cons, ← sendAllOps]
    cases hc : s.findClient u.client with
    | none =>
      obtain ⟨v, hv, hsome⟩ := hus
      rcases List.mem_cons.mp hv with rfl | hv
      · rw [hc] at hsome
        cases hsome
      · exact ih ⟨v, hv, hsome⟩
    | some c =>
      show sentBy T b (.send c.id m :: (s.sendAllOps us (fun _ => m) ++ ops)) = _
      rw [sentBy, hextra, SendBuffer.start_zero, if_neg hfits]

end


/-! ## Joins -/

/-- The relay of a group that has none of its own. -/
def defaultRelay (s : Server) : IpHost :=
  if s.globalRelay.valid then s.globalRelay
  else if s.internalRelay then { port := s.port } else {}

/-- What goes into the reply to a join: the metadata of the group and of the user, and the relay of the
group. Group and user may have to be created. -/
def joinContents (s : Server) (r : GroupJoinRequest) :
    Option AooData × Option AooData × IpHost :=
  match s.findGroupByName r.groupName with
  | some g =>
    (g.metadata, ((g.findUserByName r.userName).map User.metadata).getD r.userMetadata,
      s.relayAddr g)
  | none => (r.groupMetadata, r.userMetadata, s.defaultRelay)

/-- The reply to a join is not too long. The metadata is provided for, but the name of the relay
is not. -/
def JoinFits (s : Server) (b : SendBuffer) (r : GroupJoinRequest) : Prop :=
  64 + argsSize (oscMetadata (s.joinContents r).1) + argsSize (oscMetadata (s.joinContents r).2.1) +
      argsSize (oscHost (s.joinContents r).2.2) ≤
    (b.start (metadataSize (s.joinContents r).1 + metadataSize (s.joinContents r).2.1)).size - 4

instance (s : Server) (b : SendBuffer) (r : GroupJoinRequest) : Decidable (s.JoinFits b r) :=
  inferInstanceAs (Decidable (_ ≤ _))

/-- A new user gets an id, and the group is otherwise the same. -/
theorem getNextUserId_eq (g : Group) : ∃ n, g.getNextUserId.2 = { g with nextUserId := n } := by
  unfold Group.getNextUserId
  split
  next => exact ⟨g.nextUserId, rfl⟩
  next => exact ⟨g.nextUserId + 1, rfl⟩

/-- A join to a group that is there, as a user that is not. -/
theorem doGroupJoinOps_create {s t : Server} {r : GroupJoinRequest} {g : Group} {e : Bool}
    (hgroup : s.findOrCreateGroup r {} = (t, some (g, e)))
    (huser : g.findUser r.userId = none) (hname : g.findUserByName r.userName = none)
    (client : ClientEndpoint) (token : Int) :
    ∃ t' g' u', s.doGroupJoinOps client token r {} =
        .modify (fun _ => t') :: t'.finishGroupJoinOps client token g' u' {} ∧
      (t'.joinReply g' u' {}).groupMetadata = g.metadata ∧
      (t'.joinReply g' u' {}).userMetadata = r.userMetadata ∧
      (t'.joinReply g' u' {}).relay = t.relayAddr g := by
  obtain ⟨n, hn⟩ := getNextUserId_eq g
  have hadd : ({ g with nextUserId := n } : Group).addUser
      (newUser client.id g.getNextUserId.1 g.id e r {}) =
        some { g with
          nextUserId := n
          users := g.users ++ [newUser client.id g.getNextUserId.1 g.id e r {}] } := by
    have hname : ({ g with nextUserId := n } : Group).findUserByName
        (newUser client.id g.getNextUserId.1 g.id e r {}).name = none := hname
    rw [Group.addUser, hname]
  unfold doGroupJoinOps
  rw [hgroup]
  simp only [huser, hn, hadd]
  exact ⟨_, _, _, rfl, rfl, rfl, rfl⟩

/-- A join to a group that is not there. -/
theorem findOrCreateGroup_create {s : Server} {r : GroupJoinRequest}
    (hid : s.findGroup r.groupId = none) (hname : s.findGroupByName r.groupName = none) :
    ∃ t g, s.findOrCreateGroup r {} = (t, some (g, true)) ∧ g.metadata = r.groupMetadata ∧
      g.users = [] ∧ t.relayAddr g = s.defaultRelay := by
  have hadd : ∀ g : Group, g.name = r.groupName →
      ({ s with nextGroupId := s.nextGroupId + 1 } : Server).addGroup g =
        some { s with nextGroupId := s.nextGroupId + 1, groups := s.groups ++ [g] } := by
    intro g hg
    have hfind : ({ s with nextGroupId := s.nextGroupId + 1 } : Server).findGroupByName g.name =
        none := by
      rw [hg]
      exact hname
    rw [addGroup, hfind]
  unfold findOrCreateGroup
  rw [hid]
  simp only []
  rw [hadd _ rfl]
  exact ⟨_, _, rfl, rfl, rfl, rfl⟩

/-- **What a join that passes its checks does**: it starts with the reply. -/
theorem doGroupJoinOps_checked {s : Server} (hs : s.WellFormed) {r q : GroupJoinRequest}
    (h : s.checkGroupJoin r = .ok q) (client : ClientEndpoint) (token : Int) :
    ∃ t g u, s.doGroupJoinOps client token q {} =
        .modify (fun _ => t) :: t.finishGroupJoinOps client token g u {} ∧
      ((t.joinReply g u {}).groupMetadata, (t.joinReply g u {}).userMetadata,
        (t.joinReply g u {}).relay) = s.joinContents r := by
  have hinvalid : ∀ {g : Group}, g.WellFormed → g.findUser kAooIdInvalid = none := by
    intro g hg
    refine Keyed.lookup_eq_none.mpr fun u hu heq => ?_
    have hrange := (hg.range u hu).1
    rw [heq] at hrange
    exact absurd hrange (by decide)
  unfold checkGroupJoin at h
  unfold joinContents
  cases hname : s.findGroupByName r.groupName with
  | some g =>
    have hmem := Keyed.mem_of_lookup hname
    have hwf := hs.wellFormed g hmem
    have hfind : s.findGroup g.id = some g := hs.groups.lookup hmem
    rw [hname] at h
    dsimp only at h ⊢
    split at h
    next => cases h
    next =>
      split at h
      next u hu =>
        split at h
        next => cases h
        next =>
          split at h
          next => cases h
          next =>
            injection h with h
            subst h
            have hfindUser : g.findUser u.id = some u := hwf.findUser (Keyed.mem_of_lookup hu)
            refine ⟨s, g, u, ?_, ?_⟩
            · simp only [doGroupJoinOps, findOrCreateGroup, hfind, hfindUser]
            · rw [hu]
              rfl
      next hnone =>
        split at h
        next => cases h
        next =>
          injection h with h
          subst h
          obtain ⟨t', g', u', heq, h1, h2, h3⟩ := doGroupJoinOps_create (s := s) (t := s) (g := g)
            (r := { r with groupId := g.id, userId := kAooIdInvalid }) (e := false)
            (by rw [findOrCreateGroup, hfind]) (hinvalid hwf) hnone client token
          refine ⟨t', g', u', heq, ?_⟩
          rw [h1, h2, h3, hnone]
          rfl
  | none =>
    rw [hname] at h
    dsimp only at h ⊢
    split at h
    next => cases h
    next =>
      injection h with h
      subst h
      have hnone : s.findGroup kAooIdInvalid = none := by
        refine Keyed.lookup_eq_none.mpr fun g hg heq => ?_
        have hrange := (hs.groupRange g hg).1
        rw [heq] at hrange
        exact absurd hrange (by decide)
      obtain ⟨t, g, hcreate, hmetadata, husers, hrelay⟩ := findOrCreateGroup_create
        (r := { r with groupId := kAooIdInvalid, userId := kAooIdInvalid }) hnone hname
      have hempty : ∀ user, g.findUser user = none ∧ g.findUserByName r.userName = none := by
        intro user
        rw [Group.findUser, Group.findUserByName, husers]
        exact ⟨rfl, rfl⟩
      obtain ⟨t', g', u', heq, h1, h2, h3⟩ := doGroupJoinOps_create hcreate (hempty _).1
        (hempty 0).2 client token
      refine ⟨t', g', u', heq, ?_⟩
      rw [h1, h2, h3, hmetadata, hrelay]

/-! ## One answer -/

/-- Another member of the group than those of a client is connected. -/
def HasOther (s : Server) (g : Group) (client : Int) : Prop :=
  ∃ p ∈ g.users, p.client ≠ client ∧ (s.findClient p.client).isSome

/-- Another user of the group is connected. -/
def HasPeer (s : Server) (g : Group) (user : Int) : Prop :=
  ∃ p ∈ g.users, p.id ≠ user ∧ (s.findClient p.client).isSome

/-- The requests that are answered: the client is logged in; an update is for a group of the
client, and what the others are told about it fits in the buffer; and so does the reply to a join. -/
def Answerable (T : AddressText) (s : Server) (b : SendBuffer) (c : ClientEndpoint) :
    ServerMessage → Prop
  | .login .. | .ping | .pong => True
  | .groupJoin _ r => c.active = true ∧ ∀ q, s.checkGroupJoin r = .ok q → s.JoinFits b r
  | .groupLeave .. | .request .. => c.active = true
  | .groupUpdate _ group md => c.active = true ∧ ∃ g u, s.findGroup group = some g ∧
      g.findUserByClient c.id = some u ∧
      (s.HasOther g c.id → b.Fits ((ClientMessage.groupChanged g.id u.id (some md)).osc T))
  | .userUpdate _ group md => c.active = true ∧ ∃ g u, s.findGroup group = some g ∧
      g.findUserByClient c.id = some u ∧
      (s.HasPeer g u.id → b.Fits ((ClientMessage.peerChanged u.group u.id (some md)).osc T))

section

variable {T : AddressText} {s : Server} {b : SendBuffer} {client token : Int}

theorem answersTo_sendErrorOps (type : RequestType)
    (htype : type ≠ .groupUpdate ∧ type ≠ .userUpdate)
    (e : AooError) : answersTo client token (sentBy T b (sendErrorOps client token type e)) = 1 := by
  have hanswer : answersTo client token
      (sentBy T b [.send client (.error type token e 0 "")]) = 1 :=
    answersTo_answer rfl (b.fits_error T type token e) fun _ _ h => absurd h List.not_mem_nil
  cases type with
  | login => exact hanswer
  | groupJoin => exact hanswer
  | groupLeave => exact hanswer
  | custom => exact hanswer
  | groupUpdate => exact absurd rfl htype.1
  | userUpdate => exact absurd rfl htype.2

theorem answers_sendAllOps (s : Server) (client token : Int) (us : List User)
    {m : User → ClientMessage} (hm : ∀ u, (m u).answers = none) :
    answersTo client token
      ((us.filter fun u => (s.findClient u.client).isSome).map fun u => (u.client, m u)) = 0 := by
  refine List.countP_eq_zero.mpr fun p hp => ?_
  obtain ⟨u, -, rfl⟩ := List.mem_map.mp hp
  simp [hm u]

/-- A message to all others and then the answer: it is sent if and only if the message fits, or
nobody gets it. -/
theorem answersTo_update {us : List User} {m : ClientMessage} (hm : m.answers = none)
    (hextra : m.extra = 0) (reply : ClientMessage) (hreply : reply.answers = some token)
    (hfits : (b.start reply.extra).Fits (reply.osc T)) :
    answersTo client token (sentBy T b (s.sendAllOps us (fun _ => m) ++ [.send client reply])) = 1 ↔
      ((∃ u ∈ us, (s.findClient u.client).isSome) → b.Fits (m.osc T)) := by
  have hanswer : answersTo client token (sentBy T b [.send client reply]) = 1 :=
    answersTo_answer hreply hfits fun _ _ h => absurd h List.not_mem_nil
  by_cases h : (∃ u ∈ us, (s.findClient u.client).isSome) → b.Fits (m.osc T)
  · refine iff_of_true ?_ h
    rw [sentBy_sendAllOps s (fun _ => hextra) fun u hu hc => h ⟨u, hu, hc⟩, answersTo,
      List.countP_append]
    have hothers := answers_sendAllOps s client token us (m := fun _ => m) fun _ => hm
    rw [answersTo] at hothers hanswer
    rw [hothers, hanswer]
  · refine iff_of_false ?_ h
    obtain ⟨hus, hnot⟩ := Classical.not_imp.mp h
    rw [sentBy_sendAllOps_of_not_fits s hextra hnot hus]
    exact Nat.zero_ne_one

theorem answersTo_doGroupLeaveOps (c : ClientEndpoint) (group : Int) :
    answersTo c.id token (sentBy T b (s.doGroupLeaveOps c token group)) = 1 := by
  unfold doGroupLeaveOps
  cases s.findGroup group with
  | none => exact answersTo_sendErrorOps _ (by decide) _
  | some g =>
    simp only []
    cases g.findUserByClient c.id with
    | none => exact answersTo_sendErrorOps _ (by decide) _
    | some u =>
      simp only [onUserLeftGroupOps]
      have hfits : b.Fits ((ClientMessage.peerLeave g.id u.id).osc T) := b.fits_peerLeave T g.id u.id
      rw [sentBy_sendAllOps s (fun _ => rfl) fun _ _ _ => hfits, answersTo, List.countP_append]
      have hothers := answers_sendAllOps s c.id token (g.users.filter fun peer => peer.id ≠ u.id)
        (m := fun _ => .peerLeave g.id u.id) fun _ => rfl
      have hanswer : answersTo c.id token (sentBy T b [.send c.id (.groupLeave token)]) = 1 :=
        answersTo_answer rfl (b.fits_groupLeave T token) fun _ _ h => absurd h List.not_mem_nil
      rw [answersTo] at hothers hanswer
      rw [hothers]
      exact (Nat.zero_add _).trans hanswer

theorem size_groupJoin (T : AddressText) (token : Int) (r : GroupJoinReply)
    (hr : r.privateMetadata = none) :
    ((ClientMessage.groupJoin token r).osc T).size = 64 + argsSize (oscMetadata r.groupMetadata) +
      argsSize (oscMetadata r.userMetadata) + argsSize (oscHost r.relay) := by
  show pad4 (11 + strlen "/group/join" + 1) +
    pad4 (((ClientMessage.groupJoin token r).args T).length + 2) +
    argsSize ((ClientMessage.groupJoin token r).args T) = _
  have hlength : ((ClientMessage.groupJoin token r).args T).length = 14 := by
    simp [ClientMessage.args, length_oscMetadata, length_oscHost]
  have hsize : argsSize ((ClientMessage.groupJoin token r).args T) = 24 +
      argsSize (oscMetadata r.groupMetadata) + argsSize (oscMetadata r.userMetadata) +
      argsSize (oscHost r.relay) := by
    simp only [ClientMessage.args, argsSize_append, hr]
    show 16 + (_ + (8 + (_ + (0 + _)))) = _
    omega
  rw [hlength, hsize]
  show 24 + 16 + _ = _
  omega

theorem answersTo_doGroupJoinOps (hs : s.WellFormed) {r q : GroupJoinRequest}
    (h : s.checkGroupJoin r = .ok q) (c : ClientEndpoint) :
    answersTo c.id token (sentBy T b (s.doGroupJoinOps c token q {})) = 1 ↔ s.JoinFits b r := by
  obtain ⟨t, g, u, heq, hcontents⟩ := doGroupJoinOps_checked hs h c token
  have hfits : (b.start (ClientMessage.groupJoin token (t.joinReply g u {})).extra).Fits
      ((ClientMessage.groupJoin token (t.joinReply g u {})).osc T) ↔ s.JoinFits b r := by
    rw [SendBuffer.Fits, size_groupJoin T token _ rfl, JoinFits, ← hcontents]
    rfl
  rw [heq, finishGroupJoinOps]
  show answersTo c.id token (sentBy T b (.send c.id (.groupJoin token (t.joinReply g u {})) ::
    t.onUserJoinedGroupOps g u c)) = 1 ↔ _
  rw [← hfits]
  by_cases h : (b.start (ClientMessage.groupJoin token (t.joinReply g u {})).extra).Fits
      ((ClientMessage.groupJoin token (t.joinReply g u {})).osc T)
  · refine iff_of_true (answersTo_answer rfl h fun dst m hm => ?_) h
    obtain ⟨peer, -, hm⟩ := List.mem_flatMap.mp hm
    split at hm
    next =>
      split at hm
      next =>
        simp only [List.mem_cons, Op.send.injEq, List.not_mem_nil, or_false] at hm
        rcases hm with ⟨-, rfl⟩ | ⟨-, rfl⟩ <;> rfl
      next => exact absurd hm List.not_mem_nil
    next => exact absurd hm List.not_mem_nil
  · refine iff_of_false ?_ h
    rw [sentBy, if_neg h]
    exact Nat.zero_ne_one

theorem answersTo_login (s : Server) (c : ClientEndpoint) (version pwd : String)
    (metadata : Option AooData) (addresses : List IpAddress) :
    answersTo c.id token (sentBy T b
      (match s.checkRequest c.id (.login token version pwd metadata addresses) with
      | .error e => sendErrorOps c.id token .login e
      | .ok r => s.performOps c token r)) = 1 := by
  rw [checkRequest]
  cases checkVersion version with
  | error e => exact answersTo_sendErrorOps _ (by decide) e
  | ok _ =>
    simp only []
    split
    next => exact answersTo_sendErrorOps _ (by decide) _
    next q hq =>
      split at hq
      next => cases hq
      next =>
        cases hq
        exact answersTo_answer rfl (b.fits_login T token c.id none) fun _ _ h => absurd h List.not_mem_nil

theorem answersTo_groupUpdate (c : ClientEndpoint) (group : Int) (md : AooData) :
    answersTo c.id token (sentBy T b (match s.checkRequest c.id (.groupUpdate token group md) with
      | .error e => sendErrorOps c.id token .groupUpdate e
      | .ok r => s.performOps c token r)) = 1 ↔
      ∃ g u, s.findGroup group = some g ∧ g.findUserByClient c.id = some u ∧
        (s.HasOther g c.id → b.Fits ((ClientMessage.groupChanged g.id u.id (some md)).osc T)) := by
  rw [checkRequest, checkMember]
  cases hg : s.findGroup group with
  | none => exact iff_of_false Nat.zero_ne_one (by simp)
  | some g =>
    simp only []
    cases hu : g.findUserByClient c.id with
    | none => exact iff_of_false Nat.zero_ne_one (by simp [hu])
    | some u =>
      simp only [Except.map, performOps, doGroupUpdateOps, hg, hu]
      refine (answersTo_update rfl rfl (.groupUpdate token (some md)) rfl
        (b.fits_update T rfl rfl)).trans ?_
      simp [HasOther, hu, and_assoc]

theorem answersTo_userUpdate (hs : s.WellFormed) (c : ClientEndpoint) (group : Int) (md : AooData) :
    answersTo c.id token (sentBy T b (match s.checkRequest c.id (.userUpdate token group md) with
      | .error e => sendErrorOps c.id token .userUpdate e
      | .ok r => s.performOps c token r)) = 1 ↔
      ∃ g u, s.findGroup group = some g ∧ g.findUserByClient c.id = some u ∧
        (s.HasPeer g u.id → b.Fits ((ClientMessage.peerChanged u.group u.id (some md)).osc T)) := by
  rw [checkRequest, checkMember]
  cases hg : s.findGroup group with
  | none => exact iff_of_false Nat.zero_ne_one (by simp)
  | some g =>
    simp only []
    cases hu : g.findUserByClient c.id with
    | none => exact iff_of_false Nat.zero_ne_one (by simp [hu])
    | some u =>
      have hfind : g.findUser u.id = some u :=
        (hs.wellFormed g (findGroup_mem hg).1).findUser (Keyed.mem_of_lookup hu)
      simp only [Except.map, performOps, doUserUpdateOps, hg, hfind]
      refine (answersTo_update rfl rfl (.userUpdate token (some md)) rfl
        (b.fits_update T rfl rfl)).trans ?_
      simp [HasPeer, hu, and_assoc]

end

/-- **A request is answered exactly once** if and only if it is `Answerable`. -/
theorem answered_once_iff (T : AddressText) {s : Server} (hs : s.WellFormed) (b : SendBuffer)
    (c : ClientEndpoint) (m : ServerMessage) (type : RequestType) (token : Int)
    (hm : m.request? = some (type, token)) :
    answersTo c.id token (s.handleRequestMessage T b c m type token).sent = 1 ↔
      s.Answerable T b c m := by
  rw [handleRequestMessage, outcome_sent, List.nil_append]
  cases m with
  | login token' version pwd metadata addresses =>
    cases hm
    refine iff_of_true ?_ trivial
    rw [handleMessageOps, if_neg (by simp)]
    exact answersTo_login _ c version pwd metadata addresses
  | groupJoin token' r =>
    cases hm
    rw [handleMessageOps, Answerable]
    cases c.active with
    | false => exact iff_of_false Nat.zero_ne_one fun h => Bool.false_ne_true h.1
    | true =>
      rw [if_neg (by simp)]
      simp only [true_and]
      show answersTo c.id token (sentBy T b (match (s.checkGroupJoin r).map Request.groupJoin with
        | .error e => sendErrorOps c.id token .groupJoin e
        | .ok r => s.performOps c token r)) = 1 ↔ _
      cases hcheck : s.checkGroupJoin r with
      | error e =>
        refine iff_of_true (answersTo_sendErrorOps _ (by decide) e) ?_
        intro q hq
        cases hq
      | ok q =>
        refine (answersTo_doGroupJoinOps hs hcheck c).trans ⟨fun h _ _ => h, fun h => h q rfl⟩
  | groupLeave token' group =>
    cases hm
    rw [handleMessageOps, Answerable]
    cases c.active with
    | false => exact iff_of_false Nat.zero_ne_one Bool.false_ne_true
    | true =>
      rw [if_neg (by simp)]
      exact iff_of_true (answersTo_doGroupLeaveOps c group) rfl
  | groupUpdate token' group md =>
    cases hm
    rw [handleMessageOps, Answerable]
    cases c.active with
    | false => exact iff_of_false Nat.zero_ne_one fun h => Bool.false_ne_true h.1
    | true =>
      rw [if_neg (by simp)]
      simp only [true_and]
      exact answersTo_groupUpdate c group md
  | userUpdate token' group md =>
    cases hm
    rw [handleMessageOps, Answerable]
    cases c.active with
    | false => exact iff_of_false Nat.zero_ne_one fun h => Bool.false_ne_true h.1
    | true =>
      rw [if_neg (by simp)]
      simp only [true_and]
      exact answersTo_userUpdate hs c group md
  | request token' flags data =>
    cases hm
    rw [handleMessageOps, Answerable]
    cases c.active with
    | false => exact iff_of_false Nat.zero_ne_one Bool.false_ne_true
    | true =>
      rw [if_neg (by simp)]
      exact iff_of_true (answersTo_sendErrorOps .custom (by decide) _) rfl
  | ping => cases hm
  | pong => cases hm

/-- Two users of a group. -/
def drums : User where
  name := "drums"
  pwd := ""
  id := 0
  group := 0
  client := 0
  metadata := none
  relay := {}
  flags := kAooUserGroupCreator

def bass : User := { drums with name := "bass", id := 1, client := 1, flags := 0 }

def bandGroup : Group where
  name := "band"
  pwd := ""
  id := 0
  metadata := none
  relay := {}
  flags := 0
  users := [drums, bass]
  nextUserId := 2

/-- The client of the first user. -/
def drummer : ClientEndpoint := { id := 0, version := "2.0", groupUsers := [(0, 0)] }

def band : Server where
  clients := [drummer, { id := 1, version := "2.0", groupUsers := [(0, 1)] }]
  nextClientId := 2
  groups := [bandGroup]
  nextGroupId := 1

theorem wellFormed_band : band.WellFormed := by
  refine ⟨by unfold Keyed.Distinct; decide, by decide, by unfold Keyed.Distinct; decide,
    by unfold Keyed.Distinct; decide, by decide, ?_, by decide, by decide⟩
  intro g hg
  rw [List.mem_singleton.mp hg]
  exact ⟨by unfold Keyed.Distinct; decide, by unfold Keyed.Distinct; decide, by decide, by decide,
    by decide, by decide⟩

/-- The buffer of a new server. -/
def initialBuffer : SendBuffer := ⟨AOO_MAX_PACKET_SIZE, Nat.le_refl _⟩

/-- An update of the group is answered. -/
theorem update_answered :
    band.findClient 0 = some drummer ∧
      answersTo 0 7 (band.handleRequestMessage sampleText initialBuffer drummer
        (.groupUpdate 7 0 ⟨1, [104, 105]⟩) .groupUpdate 7).sent = 1 := by
  refine ⟨by decide, ?_⟩
  refine (answered_once_iff sampleText wellFormed_band initialBuffer drummer
    (.groupUpdate 7 0 ⟨1, [104, 105]⟩) .groupUpdate 7 rfl).mpr ?_
  exact ⟨by decide, _, _, rfl, rfl, fun _ => by decide +kernel⟩

/-- An update of a group that does not exist is not. -/
theorem update_unanswered :
    answersTo 0 7 (band.handleRequestMessage sampleText initialBuffer drummer
      (.groupUpdate 7 3 ⟨1, [104, 105]⟩) .groupUpdate 7).sent ≠ 1 := by
  decide +kernel

end Server

end Aoo.Net
