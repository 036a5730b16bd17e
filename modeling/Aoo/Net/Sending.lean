import Aoo.Net.Format

/-!
# Sending with a buffer

Messages are built in a buffer (`sendbuffer_`) that is made larger when a function of the server
asks for it (`start_message`). Some functions do not ask, and then a message with long contents
does not fit: oscpack throws, and what the function has already done remains.

To say where a function stops, it is written as the list of what it does, one step after the
other (`Op`). Without exceptions this is the same as the function in `Aoo.Net.Server`
(`foldl_handleMessageOps` and others).
-/

namespace Aoo.Net

open Lib

/-! ## The buffer -/

/-- `OutboundPacketStream`: the bytes that are taken, and the number of type tags that will be
put before the arguments. -/
structure PacketStream where
  used : Nat
  tags : Nat

/-- `CheckForAvailableArgumentSpace`, and the argument is put in. -/
def PacketStream.put (capacity : Nat) (p : PacketStream) (arg : OscArg) : Option PacketStream :=
  if p.used + arg.size + pad4 (p.tags + 3) > capacity then none
  else some ⟨p.used + arg.size, p.tags + 1⟩

/-- A message is begun, and its arguments are put in one after the other. -/
def putMessage (capacity : Nat) (m : OscMessage) : Option PacketStream :=
  if pad4 (m.address.length + 1) + 4 > capacity then none
  else m.args.foldlM (PacketStream.put capacity) ⟨pad4 (m.address.length + 1), 0⟩

/-- The arguments fit if and only if all of them do, with the type tags that come before them. -/
theorem foldlM_put_isSome (capacity : Nat) (args : List OscArg) (p : PacketStream)
    (hp : p.used + pad4 (p.tags + 2) ≤ capacity) :
    (args.foldlM (PacketStream.put capacity) p).isSome ↔
      p.used + (args.map OscArg.size).sum + pad4 (p.tags + args.length + 2) ≤ capacity := by
  induction args generalizing p with
  | nil => simpa using hp
  | cons arg args ih =>
    have hmono : ∀ n k, pad4 n ≤ pad4 (n + k) := by
      intro n k
      simp only [pad4]
      omega
    have hrest := hmono (p.tags + 3) args.length
    rw [List.foldlM_cons, PacketStream.put]
    split
    next hfull =>
      refine iff_of_false (by simp) fun h => ?_
      simp only [List.map_cons, List.sum_cons, List.length_cons] at h
      rw [show p.tags + (args.length + 1) + 2 = p.tags + 3 + args.length by omega] at h
      omega
    next hroom =>
      rw [Option.bind_eq_bind, Option.bind_some, ih ⟨p.used + arg.size, p.tags + 1⟩ (by
        show p.used + arg.size + pad4 (p.tags + 3) ≤ capacity
        omega)]
      simp only [List.map_cons, List.sum_cons, List.length_cons]
      rw [show p.tags + 1 + args.length + 2 = p.tags + (args.length + 1) + 2 by omega]
      omega

/-- A message can be built if and only if its size is within the capacity. -/
theorem putMessage_isSome (capacity : Nat) (m : OscMessage) :
    (putMessage capacity m).isSome ↔ m.size ≤ capacity := by
  have htags : 4 ≤ pad4 (m.args.length + 2) := by
    simp only [pad4]
    omega
  unfold putMessage OscMessage.size
  split
  next hfull => exact iff_of_false (by simp) (by omega)
  next hroom =>
    have hbegin : pad4 (m.address.length + 1) + pad4 (0 + 2) ≤ capacity := Nat.le_of_not_gt hroom
    rw [foldlM_put_isSome capacity m.args ⟨pad4 (m.address.length + 1), 0⟩ hbegin]
    show pad4 (m.address.length + 1) + _ + pad4 (0 + m.args.length + 2) ≤ capacity ↔ _
    rw [Nat.zero_add]
    omega

/-- `sendbuffer_`. It only grows. -/
structure SendBuffer where
  size : Nat
  min : AOO_MAX_PACKET_SIZE ≤ size

namespace SendBuffer

/-- `Server::start_message` -/
def start (b : SendBuffer) (extra : Nat) : SendBuffer where
  size := if extra > 0 then max b.size (AOO_MAX_PACKET_SIZE + extra) else b.size
  min := by
    have := b.min
    split <;> omega

/-- There is room for a message behind its size (see `putMessage_isSome`). -/
def Fits (b : SendBuffer) (m : OscMessage) : Prop := m.size ≤ b.size - 4

instance (b : SendBuffer) (m : OscMessage) : Decidable (b.Fits m) :=
  inferInstanceAs (Decidable (_ ≤ _))

theorem start_zero (b : SendBuffer) : b.start 0 = b := rfl

end SendBuffer

/-- The size of metadata. -/
def metadataSize (md : Option AooData) : Nat := (md.map fun d => d.data.length).getD 0

/-- The extra size that is asked for a message. -/
def ClientMessage.extra : ClientMessage → Nat
  | .login _ _ _ md => metadataSize md
  | .groupJoin _ r =>
    metadataSize r.groupMetadata + metadataSize r.userMetadata + metadataSize r.privateMetadata
  | .groupUpdate _ md | .userUpdate _ md => metadataSize md
  | .request _ _ data => data.data.length
  | .peerJoin p => metadataSize p.metadata
  | .groupLeave _ | .error .. | .peerLeave .. | .groupChanged .. | .userChanged ..
  | .peerChanged .. | .groupEject _ | .pong => 0

namespace Server

/-- One step of a function: the server is changed, or a message is sent. -/
inductive Op
  | modify (f : Server → Server)
  | send (client : Int) (m : ClientMessage)

/-- A step for which there is enough room. -/
def Op.apply (s : Server) : Op → Server
  | .modify f => f s
  | .send client m => s.send client m

/-- The server with its buffer and what it has sent. -/
structure Sending where
  server : Server
  buffer : SendBuffer
  sent : List (Int × ClientMessage) := []

/-- A step; an exception leaves what has been done. -/
def Op.run (T : AddressText) (st : Sending) : Op → Except Sending Sending
  | .modify f => .ok { st with server := f st.server }
  | .send client m =>
    let b := st.buffer.start m.extra
    if b.Fits (m.osc T) then
      .ok ⟨st.server.send client m, b, st.sent ++ [(client, m)]⟩
    else .error { st with buffer := b }

def run (T : AddressText) (st : Sending) (ops : List Op) : Except Sending Sending :=
  ops.foldlM (Op.run T) st

/-- A message that fits is sent, and the function goes on. -/
theorem run_send_of_fits {T : AddressText} (st : Sending) {client : Int} {m : ClientMessage}
    (h : (st.buffer.start m.extra).Fits (m.osc T)) (ops : List Op) :
    run T st (.send client m :: ops) =
      run T ⟨st.server.send client m, st.buffer.start m.extra, st.sent ++ [(client, m)]⟩ ops := by
  show (if _ then _ else _ : Except Sending Sending) >>= _ = _
  rw [if_pos h]
  rfl

/-- A message that does not fit ends the function where it is. -/
theorem run_send_of_not_fits {T : AddressText} {st : Sending} {client : Int} {m : ClientMessage}
    (h : ¬ (st.buffer.start m.extra).Fits (m.osc T)) (ops : List Op) :
    run T st (.send client m :: ops) = .error { st with buffer := st.buffer.start m.extra } := by
  show (if _ then _ else _ : Except Sending Sending) >>= _ = _
  rw [if_neg h]
  rfl

/-- If nothing is thrown, all steps are done. -/
theorem run_ok {T : AddressText} {st st' : Sending} {ops : List Op} (h : run T st ops = .ok st') :
    st'.server = ops.foldl Op.apply st.server := by
  induction ops generalizing st with
  | nil =>
    injection h with h
    rw [← h]
    rfl
  | cons op ops ih =>
    cases op with
    | modify f => exact ih h
    | send client m =>
      by_cases hfits : (st.buffer.start m.extra).Fits (m.osc T)
      · rw [run_send_of_fits _ hfits] at h
        exact ih h
      · rw [run_send_of_not_fits hfits] at h
        cases h

/-! ## The functions as lists of steps

The names are those of the functions in `Aoo.Net.Server`.
-/

def sendAllOps (s : Server) (users : List User) (m : User → ClientMessage) : List Op :=
  users.flatMap fun u =>
    match s.findClient u.client with
    | some c => [.send c.id (m u)]
    | none => []

def onUserJoinedGroupOps (s : Server) (g : Group) (u : User) (client : ClientEndpoint) : List Op :=
  g.users.flatMap fun peer =>
    if peer.id ≠ u.id ∧ peer.active then
      match s.findClient peer.client with
      | some other =>
        [.send client.id (peerJoinMessage g peer other), .send other.id (peerJoinMessage g u client)]
      | none => []
    else []

def onUserLeftGroupOps (s : Server) (g : Group) (u : User) : List Op :=
  s.sendAllOps (g.users.filter fun peer => peer.id ≠ u.id) fun _ => .peerLeave g.id u.id

def sendErrorOps (client token : Int) (type : RequestType) (result : AooError) : List Op :=
  match type with
  | .login | .groupJoin | .groupLeave | .custom => [.send client (.error type token result 0 "")]
  | .groupUpdate | .userUpdate => []

def doLoginOps (client token : Int) (version : String) (metadata : Option AooData) : List Op :=
  [.modify fun s => s.modifyClient client fun c => { c with version },
    .send client (.login token aooGetVersionString client metadata)]

def finishGroupJoinOps (s : Server) (client : ClientEndpoint) (token : Int) (g : Group) (u : User)
    (response : GroupJoinResponse) : List Op :=
  .modify (·.onGroupJoin client.id g.id u.id) ::
    .send client.id (.groupJoin token (s.joinReply g u response)) ::
    s.onUserJoinedGroupOps g u client

def doGroupJoinOps (s : Server) (client : ClientEndpoint) (token : Int) (r : GroupJoinRequest)
    (response : GroupJoinResponse) : List Op :=
  match s.findOrCreateGroup r response with
  | (s, none) => .modify (fun _ => s) :: sendErrorOps client.id token .groupJoin .cannotCreateGroup
  | (s, some (g, created)) =>
    match g.findUser r.userId with
    | some u => .modify (fun _ => s) :: s.finishGroupJoinOps client token g u response
    | none =>
      let (id, g) := g.getNextUserId
      let s := s.modifyGroup g.id fun _ => g
      let u := newUser client.id id g.id created r response
      match g.addUser u with
      | none => .modify (fun _ => s) :: sendErrorOps client.id token .groupJoin .cannotCreateUser
      | some g =>
        let s := s.modifyGroup g.id fun _ => g
        .modify (fun _ => s) :: s.finishGroupJoinOps client token g u response

def doGroupLeaveOps (s : Server) (client : ClientEndpoint) (token group : Int) : List Op :=
  match s.findGroup group with
  | none => sendErrorOps client.id token .groupLeave .groupDoesNotExist
  | some g =>
    match g.findUserByClient client.id with
    | none => sendErrorOps client.id token .groupLeave .notGroupMember
    | some u =>
      s.onUserLeftGroupOps g u ++
        [.modify (·.onGroupLeave client.id g.id u.id false), .modify (·.doRemoveUserFromGroup g u),
          .send client.id (.groupLeave token)]

/-- `group::set_metadata` -/
def setGroupMetadata (g : Group) (md : AooData) : Op :=
  .modify fun s => s.modifyGroup g.id fun g => { g with metadata := some md }

/-- `user::set_metadata` -/
def setUserMetadata (g : Group) (u : User) (md : AooData) : Op :=
  .modify fun s => s.modifyGroup g.id fun g => g.modifyUser u.id fun u =>
    { u with metadata := some md }

def doGroupUpdateOps (s : Server) (client : ClientEndpoint) (token group : Int) (md : AooData) :
    List Op :=
  match s.findGroup group with
  | none => []
  | some g =>
    match g.findUserByClient client.id with
    | none => []
    | some u =>
      setGroupMetadata g md :: (s.sendAllOps (g.users.filter fun p => p.client ≠ client.id) (fun _ =>
        .groupChanged g.id u.id (some md)) ++ [.send client.id (.groupUpdate token (some md))])

def doUserUpdateOps (s : Server) (client : ClientEndpoint) (token group user : Int)
    (md : AooData) : List Op :=
  match s.findGroup group with
  | none => []
  | some g =>
    match g.findUser user with
    | none => []
    | some u =>
      setUserMetadata g u md :: (s.sendAllOps (g.users.filter fun member => member.id ≠ u.id)
        (fun _ => .peerChanged u.group u.id (some md)) ++
        [.send client.id (.userUpdate token (some md))])

def performOps (s : Server) (client : ClientEndpoint) (token : Int) : Request → List Op
  | .login version _ _ => doLoginOps client.id token version none
  | .groupJoin r => s.doGroupJoinOps client token r {}
  | .groupLeave group => s.doGroupLeaveOps client token group
  | .groupUpdate group md => s.doGroupUpdateOps client token group md
  | .userUpdate group user md => s.doUserUpdateOps client token group user md
  | .custom .. => sendErrorOps client.id token .custom .unhandledRequest

/-- `Server::handle_message`, for a request that the request handler does not take over. -/
def handleMessageOps (s : Server) (client : ClientEndpoint) (m : ServerMessage)
    (type : RequestType) (token : Int) : List Op :=
  if type ≠ .login ∧ !client.active then [.modify (·.removeClient client.id)]
  else
    let t := s.noteAddresses client.id m
    .modify (fun _ => t) ::
      match t.checkRequest client.id m with
      | .error e => sendErrorOps client.id token type e
      | .ok r => t.performOps client token r

def updateGroupOps (s : Server) (g : Group) (md : AooData) : List Op :=
  setGroupMetadata g md ::
    s.sendAllOps g.users fun _ => .groupChanged g.id kAooIdInvalid (some md)

def updateUserOps (s : Server) (g : Group) (u : User) (md : AooData) : List Op :=
  setUserMetadata g u md ::
    s.sendAllOps g.users fun member =>
      if member.id = u.id then .userChanged member.group member.id (some md)
      else .peerChanged member.group member.id member.metadata


/-! ## The lists do what the functions do -/

/-- What messages say about a client. -/
def core (c : ClientEndpoint) : Int × String × List IpAddress := (c.id, c.version, c.publicAddresses)

/-- The clients are the same, up to what is on its way to them. -/
def SameCore (s t : Server) : Prop :=
  ∀ id, (t.findClient id).map core = (s.findClient id).map core

/-- The clients are the same over two steps. -/
theorem SameCore.trans {s t u : Server} (h : SameCore s t) (h' : SameCore t u) : SameCore s u :=
  fun id => (h' id).trans (h id)

/-- An update that only adds messages. -/
theorem Updates.sameCore {s t : Server} {f : Int → ClientEndpoint → ClientEndpoint}
    (h : Updates s t f) (hf : ∀ id c, core (f id c) = core c) : SameCore s t := by
  intro id
  rw [h.find, Option.map_map]
  exact congrArg (Option.map · _) (funext (hf id))

/-- A message changes nothing else. -/
theorem sameCore_send (s : Server) (client : Int) (m : ClientMessage) :
    SameCore s (s.send client m) :=
  (sends_send s client m).sameCore fun _ _ => rfl

theorem sameCore_setGroupMetadata (s : Server) (g : Group) (md : AooData) :
    SameCore s (Op.apply s (setGroupMetadata g md)) := fun _ => rfl

theorem sameCore_setUserMetadata (s : Server) (g : Group) (u : User) (md : AooData) :
    SameCore s (Op.apply s (setUserMetadata g u md)) := fun _ => rfl

/-- A client that is not there has not come. -/
theorem SameCore.none {s t : Server} (h : SameCore s t) {id : Int} (hs : s.findClient id = none) :
    t.findClient id = none := by
  have hid := h id
  rw [hs, Option.map_none] at hid
  exact Option.map_eq_none_iff.mp hid

/-- A client that is there has stayed. -/
theorem SameCore.some {s t : Server} (h : SameCore s t) {id : Int} {c : ClientEndpoint}
    (hs : s.findClient id = some c) : ∃ c', t.findClient id = some c' ∧ core c' = core c := by
  have hid := h id
  rw [hs, Option.map_some] at hid
  exact Option.map_eq_some_iff.mp hid

/-- A loop over users, in which each round sends messages. -/
theorem foldl_flatMap {s t : Server} {ops : User → List Op} {f : Server → User → Server}
    (hsame : SameCore s t) (us : List User)
    (hstep : ∀ t u, SameCore s t → (ops u).foldl Op.apply t = f t u ∧ SameCore s (f t u)) :
    (us.flatMap ops).foldl Op.apply t = us.foldl f t := by
  induction us generalizing t with
  | nil => rfl
  | cons u us ih =>
    obtain ⟨heq, hsame'⟩ := hstep t u hsame
    rw [List.flatMap_cons, List.foldl_append, heq, List.foldl_cons]
    exact ih hsame'

/-- The steps of `sendAll`, without exceptions. -/
theorem foldl_sendAllOps {s t : Server} (hsame : SameCore s t) (us : List User)
    (m : User → ClientMessage) : (s.sendAllOps us m).foldl Op.apply t = t.sendAll us m := by
  refine foldl_flatMap hsame us fun t u hsame => ?_
  cases hc : s.findClient u.client with
  | none =>
    rw [hsame.none hc]
    exact ⟨rfl, hsame⟩
  | some c =>
    obtain ⟨c', hc', -⟩ := hsame.some hc
    rw [hc']
    simp only [findClient_id hc, findClient_id hc']
    exact ⟨rfl, hsame.trans (sameCore_send t _ _)⟩

/-- The steps of `on_user_left_group`, without exceptions. -/
theorem foldl_onUserLeftGroupOps (s : Server) (g : Group) (u : User) :
    (s.onUserLeftGroupOps g u).foldl Op.apply s = s.onUserLeftGroup g u := by
  rw [onUserLeftGroupOps, foldl_sendAllOps (fun _ => rfl), sendAll, onUserLeftGroup,
    List.foldl_filter]
  congr 1
  funext t peer
  by_cases h : peer.id ≠ u.id
  · simp [h]
  · simp [h]

/-- The steps of `on_user_joined_group`, also behind messages that were sent before. -/
theorem foldl_onUserJoinedGroupOps {s t : Server} (hsame : SameCore s t) (g : Group) (u : User)
    (client : ClientEndpoint) :
    (s.onUserJoinedGroupOps g u client).foldl Op.apply t = t.onUserJoinedGroup g u client := by
  refine foldl_flatMap hsame g.users fun t peer hsame => ?_
  split
  next =>
    cases hc : s.findClient peer.client with
    | none =>
      rw [hsame.none hc]
      exact ⟨rfl, hsame⟩
    | some c =>
      obtain ⟨c', hc', hcore⟩ := hsame.some hc
      have hmessage : peerJoinMessage g peer c = peerJoinMessage g peer c' := by
        obtain ⟨-, hrest⟩ := Prod.mk.inj hcore
        obtain ⟨hversion, haddresses⟩ := Prod.mk.inj hrest
        rw [peerJoinMessage, peerJoinMessage, hversion, haddresses]
      rw [hc']
      simp only [hmessage, findClient_id hc, findClient_id hc']
      exact ⟨rfl, hsame.trans ((sameCore_send t _ _).trans (sameCore_send _ _ _))⟩
  next => exact ⟨rfl, hsame⟩

/-- The steps of `send_error`. -/
theorem foldl_sendErrorOps (s : Server) (client token : Int) (type : RequestType)
    (result : AooError) :
    (sendErrorOps client token type result).foldl Op.apply s =
      s.sendError client token type result none := by
  cases type <;> rfl

/-- The steps of the last part of a join. -/
theorem foldl_finishGroupJoinOps (s : Server) (client : ClientEndpoint) (token : Int) (g : Group)
    (u : User) (response : GroupJoinResponse) :
    (s.finishGroupJoinOps client token g u response).foldl Op.apply s =
      s.finishGroupJoin client token g u response := by
  have hjoin : SameCore s (s.onGroupJoin client.id g.id u.id) :=
    (updates_onGroupJoin s client.id g.id u.id).sameCore fun id c => by split <;> rfl
  exact foldl_onUserJoinedGroupOps (hjoin.trans (sameCore_send _ _ _)) g u client

/-- The steps of `do_group_join`, on all its paths. -/
theorem foldl_doGroupJoinOps (s : Server) (client : ClientEndpoint) (token : Int)
    (r : GroupJoinRequest) (response : GroupJoinResponse) :
    (s.doGroupJoinOps client token r response).foldl Op.apply s =
      s.doGroupJoin client token r response := by
  unfold doGroupJoinOps doGroupJoin
  rcases s.findOrCreateGroup r response with ⟨t, _ | ⟨g, created⟩⟩
  · rfl
  · simp only []
    cases g.findUser r.userId with
    | some u => exact foldl_finishGroupJoinOps t client token g u response
    | none =>
      simp only []
      cases g.getNextUserId.2.addUser
          (newUser client.id g.getNextUserId.1 g.getNextUserId.2.id created r response) with
      | none => rfl
      | some g' => exact foldl_finishGroupJoinOps _ client token g' _ response

/-- The steps of `do_group_leave`. -/
theorem foldl_doGroupLeaveOps (s : Server) (client : ClientEndpoint) (token group : Int) :
    (s.doGroupLeaveOps client token group).foldl Op.apply s = s.doGroupLeave client token group := by
  unfold doGroupLeaveOps doGroupLeave
  cases s.findGroup group with
  | none => rfl
  | some g =>
    simp only []
    cases g.findUserByClient client.id with
    | none => rfl
    | some u =>
      simp only []
      rw [List.foldl_append, foldl_onUserLeftGroupOps]
      rfl

/-- The steps of `do_group_update`. -/
theorem foldl_doGroupUpdateOps (s : Server) (client : ClientEndpoint) (token group : Int)
    (md : AooData) :
    (s.doGroupUpdateOps client token group md).foldl Op.apply s =
      s.doGroupUpdate client token group md := by
  unfold doGroupUpdateOps doGroupUpdate
  cases s.findGroup group with
  | none => rfl
  | some g =>
    simp only []
    cases g.findUserByClient client.id with
    | none => rfl
    | some u =>
      simp only []
      rw [List.foldl_cons, List.foldl_append, foldl_sendAllOps (sameCore_setGroupMetadata s g md)]
      rfl

/-- The steps of `do_user_update`. -/
theorem foldl_doUserUpdateOps (s : Server) (client : ClientEndpoint) (token group user : Int)
    (md : AooData) :
    (s.doUserUpdateOps client token group user md).foldl Op.apply s =
      s.doUserUpdate client token group user md := by
  unfold doUserUpdateOps doUserUpdate
  cases s.findGroup group with
  | none => rfl
  | some g =>
    simp only []
    cases g.findUser user with
    | none => rfl
    | some u =>
      simp only []
      rw [List.foldl_cons, List.foldl_append, foldl_sendAllOps (sameCore_setUserMetadata s g u md)]
      rfl

/-- The steps of a request that the user has accepted. -/
theorem foldl_performOps (s : Server) (client : ClientEndpoint) (token : Int) (r : Request) :
    (s.performOps client token r).foldl Op.apply s = s.dispatch client token r false := by
  cases r with
  | login version pwd metadata => rfl
  | groupJoin r => exact foldl_doGroupJoinOps s client token r {}
  | groupLeave group => exact foldl_doGroupLeaveOps s client token group
  | groupUpdate group md => exact foldl_doGroupUpdateOps s client token group md
  | userUpdate group user md => exact foldl_doUserUpdateOps s client token group user md
  | custom flags data => rfl

/-- Without exceptions, a request is handled as in `Aoo.Net.Server`. -/
theorem foldl_handleMessageOps {s : Server} {client : Int} {c : ClientEndpoint}
    (hc : s.findClient client = some c) {m : ServerMessage} {type : RequestType} {token : Int}
    (hm : m.request? = some (type, token)) :
    (s.handleMessageOps c m type token).foldl Op.apply s = s.handleMessage client m false := by
  rw [handleMessageOps, handleMessage, hc, hm, findClient_id hc]
  simp only []
  split
  next => rfl
  next =>
    rw [List.foldl_cons]
    show List.foldl Op.apply (s.noteAddresses client m) _ = _
    cases (s.noteAddresses client m).checkRequest client m with
    | error e => exact foldl_sendErrorOps _ client token type e
    | ok r => exact foldl_performOps _ c token r

/-- The steps of `updateGroup`. -/
theorem foldl_updateGroupOps {s : Server} {group : Int} {g : Group}
    (hg : s.findGroup group = some g) (md : AooData) :
    (s.updateGroupOps g md).foldl Op.apply s = s.updateGroup group md := by
  rw [updateGroupOps, updateGroup, hg, List.foldl_cons,
    foldl_sendAllOps (sameCore_setGroupMetadata s g md)]
  rfl

/-- The steps of `updateUser`. -/
theorem foldl_updateUserOps {s : Server} {group user : Int} {g : Group} {u : User}
    (hg : s.findGroup group = some g) (hu : g.findUser user = some u) (md : AooData) :
    (s.updateUserOps g u md).foldl Op.apply s = s.updateUser group user md := by
  rw [updateUserOps, updateUser, hg, List.foldl_cons,
    foldl_sendAllOps (sameCore_setUserMetadata s g u md)]
  simp only [hu]
  rfl
end Server


/-! ## Sizes -/

/-- The longest address pattern has 14 characters behind the domain. -/
theorem ClientPattern.strlen_text_le (p : ClientPattern) : strlen p.text ≤ 14 := by
  cases p <;> decide

/-- The bytes of some arguments. -/
def argsSize (args : List OscArg) : Nat := (args.map OscArg.size).sum

/-- Sizes of arguments add up. -/
theorem argsSize_append (xs ys : List OscArg) : argsSize (xs ++ ys) = argsSize xs + argsSize ys := by
  rw [argsSize, List.map_append, List.sum_append]
  rfl

/-- Metadata takes its size, the count and the padding. -/
theorem argsSize_oscMetadata_le (md : Option AooData) :
    argsSize (oscMetadata md) ≤ metadataSize md + 11 := by
  cases md with
  | none => exact Nat.zero_le _
  | some d =>
    rw [oscMetadata]
    split
    next =>
      simp only [argsSize, metadataSize, List.map_cons, List.map_nil, List.sum_cons, List.sum_nil,
        OscArg.size, pad4, Option.map_some, Option.getD_some]
      omega
    next => exact Nat.zero_le _

theorem length_oscMetadata (md : Option AooData) : (oscMetadata md).length = 2 := by
  cases md with
  | none => rfl
  | some d =>
    rw [oscMetadata]
    split <;> rfl

theorem length_oscHost (h : IpHost) : (oscHost h).length = 2 := by
  rw [oscHost]
  split <;> rfl

/-- A message for a client, without what its arguments take. -/
theorem ClientMessage.size_osc_le (T : AddressText) (m : ClientMessage) :
    (m.osc T).size ≤ 28 + pad4 ((m.args T).length + 2) + argsSize (m.args T) := by
  have hpattern := ClientPattern.strlen_text_le m.pattern
  show pad4 (11 + strlen m.pattern.text + 1) + _ + argsSize (m.args T) ≤ _
  simp only [pad4]
  show _ + ((m.args T).length + 2 + 3) / 4 * 4 + _ ≤ _
  omega

/-- There is room for a message whose contents were asked for. -/
theorem SendBuffer.fits_start (b : SendBuffer) {m : OscMessage} (extra : Nat)
    (h : m.size ≤ 4092 + extra) : (b.start extra).Fits m := by
  have hmin := b.min
  have hmax : AOO_MAX_PACKET_SIZE = 4096 := rfl
  unfold SendBuffer.Fits SendBuffer.start
  simp only []
  split <;> omega

/-- Errors always fit, since the buffer is never smaller than it is at first. -/
theorem SendBuffer.fits_error (b : SendBuffer) (T : AddressText) (type : RequestType) (token : Int)
    (result : AooError) :
    (b.start (ClientMessage.error type token result 0 "").extra).Fits
      ((ClientMessage.error type token result 0 "").osc T) := by
  refine b.fits_start _ ((ClientMessage.size_osc_le T _).trans ?_)
  show 28 + pad4 (4 + 2) + (4 + (4 + (4 + (pad4 (strlen "" + 1) + 0)))) ≤ 4092 + 0
  decide

/-- So do login responses: `start_message` is told how large the metadata is. -/
theorem SendBuffer.fits_login (b : SendBuffer) (T : AddressText) (token client : Int)
    (md : Option AooData) :
    (b.start (ClientMessage.login token Server.aooGetVersionString client md).extra).Fits
      ((ClientMessage.login token Server.aooGetVersionString client md).osc T) := by
  refine b.fits_start _ ((ClientMessage.size_osc_le T _).trans ?_)
  have hmd := argsSize_oscMetadata_le md
  rw [ClientMessage.args, argsSize_append, List.length_append, length_oscMetadata]
  show 28 + pad4 (5 + 2 + 2) +
    (4 + (4 + (pad4 (strlen Server.aooGetVersionString + 1) + (4 + (4 + 0)))) + _) ≤
      4092 + metadataSize md
  have hversion : pad4 (strlen Server.aooGetVersionString + 1) = 12 := by decide
  rw [hversion]
  simp only [pad4]
  omega

/-- So do responses to requests to leave a group. -/
theorem SendBuffer.fits_groupLeave (b : SendBuffer) (T : AddressText) (token : Int) :
    (b.start (ClientMessage.groupLeave token).extra).Fits ((ClientMessage.groupLeave token).osc T) := by
  refine b.fits_start _ ((ClientMessage.size_osc_le T _).trans ?_)
  show 28 + pad4 (2 + 2) + (4 + (4 + 0)) ≤ 4092 + 0
  decide

/-- So do messages about peers that have left. -/
theorem SendBuffer.fits_peerLeave (b : SendBuffer) (T : AddressText) (group user : Int) :
    (b.start (ClientMessage.peerLeave group user).extra).Fits
      ((ClientMessage.peerLeave group user).osc T) := by
  refine b.fits_start _ ((ClientMessage.size_osc_le T _).trans ?_)
  show 28 + pad4 (2 + 2) + (4 + (4 + 0)) ≤ 4092 + 0
  decide

/-- So do pongs. -/
theorem SendBuffer.fits_pong (b : SendBuffer) (T : AddressText) :
    (b.start ClientMessage.pong.extra).Fits (ClientMessage.pong.osc T) := by
  refine b.fits_start _ ((ClientMessage.size_osc_le T _).trans ?_)
  show 28 + pad4 (0 + 2) + 0 ≤ 4092 + 0
  decide

/-- The reply to an update always fits. -/
theorem SendBuffer.fits_update (b : SendBuffer) (T : AddressText) {m : ClientMessage} {token : Int}
    {md : Option AooData}
    (hm : m.args T = [.int32 token, .int32 kAooErrorNone] ++ oscMetadata md)
    (hextra : m.extra = metadataSize md) : (b.start m.extra).Fits (m.osc T) := by
  refine b.fits_start _ ((ClientMessage.size_osc_le T m).trans ?_)
  have hmd := argsSize_oscMetadata_le md
  rw [hextra, hm, argsSize_append, List.length_append, length_oscMetadata]
  show 28 + pad4 (2 + 2 + 2) + (4 + (4 + 0) + _) ≤ _
  simp only [pad4]
  omega

end Aoo.Net
