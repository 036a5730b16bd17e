import Aoo.Net.Changes
import Aoo.Net.Joining

/-!
# Exceptions

The actions of the server with its send buffer (`stepSending`). A message that does not fit makes
oscpack throw, and the function of the server stops there. If it was handling the message of a
client, the client is removed (`handle_client_data`). If it was called by the user of the server, nobody
catches the exception but the user, and what has been done remains.

Most functions do not throw, or they throw when they have done nothing but updates of metadata. So
if the messages of a join fit, an exception is of no concern to the groups (`Quiet`,
`quiet_clientMessageOps`, `quiet_handleRequestOps`).
-/

namespace Aoo.Net

open Lib

namespace Server

/-! ## The actions as lists of steps -/

/-- `client_endpoint::send_error`, with the response of the user. -/
def denyOps (client token : Int) (type : RequestType) (result : AooError)
    (response : Option (Int × String)) : List Op :=
  match type with
  | .login | .groupJoin | .groupLeave | .custom =>
    let (code, message) := response.getD (0, "")
    [.send client (.error type token result code message)]
  | .groupUpdate | .userUpdate => []

/-- A request is carried out; the response must be of the same type. -/
def respondOps (s : Server) (client : ClientEndpoint) (token : Int) : Request → Response → List Op
  | .login version _ _, .login metadata => doLoginOps client.id token version metadata
  | .groupJoin r, .groupJoin response => s.doGroupJoinOps client token r response
  | .groupLeave group, .groupLeave => s.doGroupLeaveOps client token group
  | .groupUpdate group _, .groupUpdate md => s.doGroupUpdateOps client token group md
  | .userUpdate group user _, .userUpdate md => s.doUserUpdateOps client token group user md
  | .custom _ _, .custom flags data => [.send client.id (.request token flags data)]
  | _, _ => []

/-- `Server::handleRequest` -/
def handleRequestOps (s : Server) (client : ClientEndpoint) (token : Int) (r : Request) :
    Except (AooError × Option (Int × String)) Response → List Op
  | .ok response => s.respondOps client token r response
  | .error (e, response) => denyOps client.id token r.type e response

/-- `Server::handle_message`. If the request handler takes the request over, it has the addresses in the
message noted before. -/
def clientMessageOps (s : Server) (client : ClientEndpoint) (m : ServerMessage) (taken : Bool) :
    List Op :=
  match m.request? with
  | none =>
    if !client.active then [.modify (·.removeClient client.id)]
    else if m = .ping then [.send client.id .pong] else []
  | some (type, token) =>
    if taken ∧ (s.request client.id m).isSome then [.modify (·.noteAddresses client.id m)]
    else s.handleMessageOps client m type token

/-- An exception goes to the user of the server. -/
def thrown : Except Sending Sending → Sending
  | .ok st => st
  | .error st => st

/-- An action, and the buffer that it leaves. The messages of the actions that are not
listed here always fit (see `SendBuffer.fits_peerLeave`, `SendBuffer.fits_groupEject`). -/
def stepSending (T : AddressText) (s : Server) (b : SendBuffer) (a : Action) : Server × SendBuffer :=
  let st : Sending :=
    match a with
    | .handleMessage client m taken =>
      match s.findClient client with
      | none => ⟨s, b, []⟩
      | some c => outcome client (run T ⟨s, b, []⟩ (s.clientMessageOps c m taken))
    | .handleRequest client token r result =>
      match s.findClient client with
      | none => ⟨s, b, []⟩
      | some c => thrown (run T ⟨s, b, []⟩ (s.handleRequestOps c token r result))
    | .updateGroup group md =>
      match s.findGroup group with
      | none => ⟨s, b, []⟩
      | some g => thrown (run T ⟨s, b, []⟩ (s.updateGroupOps g md))
    | .updateUser group user md =>
      match s.findGroup group with
      | none => ⟨s, b, []⟩
      | some g =>
        match g.findUser user with
        | none => ⟨s, b, []⟩
        | some u => thrown (run T ⟨s, b, []⟩ (s.updateUserOps g u md))
    | a => ⟨s.step a, b, []⟩
  (st.server, st.buffer)

/-! ## Without exceptions -/

section

variable {T : AddressText} {s t : Server} {b : SendBuffer} {st st' : Sending}
  {client : ClientEndpoint} {token : Int}

/-- The steps of a refusal. -/
theorem foldl_denyOps (s : Server) (client token : Int) (type : RequestType) (result : AooError)
    (response : Option (Int × String)) :
    (denyOps client token type result response).foldl Op.apply s =
      s.sendError client token type result response := by
  cases type <;> rfl

/-- The steps of a response. -/
theorem foldl_respondOps (s : Server) (client : ClientEndpoint) (token : Int) (r : Request)
    (response : Response) :
    (s.respondOps client token r response).foldl Op.apply s = s.perform client token r response := by
  cases r with
  | login version pwd metadata => cases response <;> rfl
  | groupJoin r =>
    cases response with
    | groupJoin response => exact foldl_doGroupJoinOps s client token r response
    | login | groupLeave | groupUpdate | userUpdate | custom => rfl
  | groupLeave group =>
    cases response with
    | groupLeave => exact foldl_doGroupLeaveOps s client token group
    | login | groupJoin | groupUpdate | userUpdate | custom => rfl
  | groupUpdate group metadata =>
    cases response with
    | groupUpdate md => exact foldl_doGroupUpdateOps s client token group md
    | login | groupJoin | groupLeave | userUpdate | custom => rfl
  | userUpdate group user metadata =>
    cases response with
    | userUpdate md => exact foldl_doUserUpdateOps s client token group user md
    | login | groupJoin | groupLeave | groupUpdate | custom => rfl
  | custom flags data => cases response <;> rfl

/-- The steps of a request that the user answers. -/
theorem foldl_handleRequestOps {id : Int} {c : ClientEndpoint} (hc : s.findClient id = some c)
    (token : Int) (r : Request) (result : Except (AooError × Option (Int × String)) Response) :
    (s.handleRequestOps c token r result).foldl Op.apply s = s.handleRequest id token r result := by
  rw [handleRequest, hc]
  cases result with
  | ok response => exact foldl_respondOps s c token r response
  | error e =>
    rw [handleRequestOps, foldl_denyOps, findClient_id hc]

/-- The request handler makes no difference to a message without request. -/
theorem handleMessage_of_request_none {id : Int} {m : ServerMessage} (h : s.request id m = none)
    (taken : Bool) : s.handleMessage id m taken = s.handleMessage id m false := by
  unfold request at h
  unfold handleMessage
  cases hc : s.findClient id with
  | none => rfl
  | some c =>
    cases hm : m.request? with
    | none => rfl
    | some p =>
      obtain ⟨type, token⟩ := p
      rw [hc, hm] at h
      simp only at h ⊢
      split at h
      next hinactive => rw [if_pos hinactive, if_pos hinactive]
      next hactive =>
        rw [if_neg hactive, if_neg hactive]
        split at h
        next => cases h
        next e he => rw [he]

/-- The steps of a message from a client. -/
theorem foldl_clientMessageOps {id : Int} {c : ClientEndpoint} (hc : s.findClient id = some c)
    (m : ServerMessage) (taken : Bool) :
    (s.clientMessageOps c m taken).foldl Op.apply s = s.handleMessage id m taken := by
  have hid := findClient_id hc
  unfold clientMessageOps
  rw [hid]
  cases hm : m.request? with
  | none =>
    rw [handleMessage, hc, hm]
    simp only
    split
    next => rfl
    next => split <;> rfl
  | some p =>
    obtain ⟨type, token⟩ := p
    simp only
    split
    next htaken =>
      obtain ⟨rfl, hsome⟩ := htaken
      rcases handleMessage_cases s id m true with ⟨hnone, -⟩ | ⟨c', _, _, q, -, -, -, -, -, heq⟩
      · rw [hnone] at hsome
        cases hsome
      · rw [heq, dispatch, if_pos rfl]
        rfl
    next hopen =>
      rw [foldl_handleMessageOps hc hm]
      cases taken with
      | false => rfl
      | true =>
        refine (handleMessage_of_request_none (Option.not_isSome_iff_eq_none.mp fun hsome => ?_)
          true).symm
        exact hopen ⟨rfl, hsome⟩

/-! ## What an exception leaves -/

/-- **A function that stops** has done the steps before the message that does not fit. -/
theorem run_error {ops : List Op} (h : run T st ops = .error st') :
    ∃ xs dst m ys, ops = xs ++ .send dst m :: ys ∧ st'.server = xs.foldl Op.apply st.server := by
  induction ops generalizing st with
  | nil => cases h
  | cons op ops ih =>
    cases op with
    | modify f =>
      have h : run T { st with server := f st.server } ops = .error st' := h
      obtain ⟨xs, dst, m, ys, rfl, heq⟩ := ih h
      exact ⟨.modify f :: xs, dst, m, ys, rfl, heq⟩
    | send dst m =>
      by_cases hfits : (st.buffer.start m.extra).Fits (m.osc T)
      · rw [run_send_of_fits st hfits] at h
        obtain ⟨xs, dst', m', ys, rfl, heq⟩ := ih h
        exact ⟨.send dst m :: xs, dst', m', ys, rfl, heq⟩
      · rw [run_send_of_not_fits hfits] at h
        injection h with h
        rw [← h]
        exact ⟨[], dst, m, ops, rfl, rfl⟩

/-- Each message fits in the buffer, which grows on the way. -/
def AllFit (T : AddressText) : SendBuffer → List Op → Prop
  | _, [] => True
  | b, .modify _ :: ops => AllFit T b ops
  | b, .send _ m :: ops =>
    (b.start m.extra).Fits (m.osc T) ∧ AllFit T (b.start m.extra) ops

instance decidableAllFit (T : AddressText) :
    (b : SendBuffer) → (ops : List Op) → Decidable (AllFit T b ops)
  | _, [] => .isTrue trivial
  | b, .modify _ :: ops => decidableAllFit T b ops
  | b, .send _ m :: ops =>
    have := decidableAllFit T (b.start m.extra) ops
    inferInstanceAs (Decidable (_ ∧ _))

/-- If all messages fit, nothing is thrown. -/
theorem AllFit.run_ne_error {ops : List Op} (h : AllFit T st.buffer ops) :
    run T st ops ≠ .error st' := by
  induction ops generalizing st with
  | nil =>
    intro heq
    cases heq
  | cons op ops ih =>
    cases op with
    | modify f =>
      have hrest : AllFit T { st with server := f st.server }.buffer ops := h
      exact ih hrest
    | send dst m =>
      rw [run_send_of_fits st h.1]
      exact ih h.2

/-- All messages fit if each fits into any buffer. -/
theorem allFit_of_forall {ops : List Op}
    (h : ∀ dst m, .send dst m ∈ ops → ∀ b : SendBuffer, (b.start m.extra).Fits (m.osc T)) :
    AllFit T b ops := by
  induction ops generalizing b with
  | nil => trivial
  | cons op ops ih =>
    have hrest := fun b => ih (b := b) fun dst m hm => h dst m (List.mem_cons_of_mem _ hm)
    cases op with
    | modify f => exact hrest b
    | send dst m => exact ⟨h dst m List.mem_cons_self b, hrest _⟩

/-- The clients and their groups are as before, and what the clients are sent is of no concern to
their groups. -/
structure Quiet (s t : Server) : Prop where
  consistent : t.Consistent
  informs : ∀ id, Informs [] s t id

theorem Quiet.refl (hs : s.Consistent) : Quiet s s := ⟨hs, fun id => .refl s id []⟩

/-- A step that sends a message for the user of a client. -/
def Op.Silent (op : Op) : Prop := ∃ dst m, op = .send dst m ∧ m.Silent

/-- Silent steps only send messages that tell nothing about members. -/
theorem sends_silent {ops : List Op} (h : ∀ op ∈ ops, op.Silent) (t : Server) :
    ∃ out, Sends t (ops.foldl Op.apply t) out ∧ ∀ id, ∀ m ∈ out id, m.Silent := by
  induction ops generalizing t with
  | nil => exact ⟨_, .refl t, fun _ _ hm => absurd hm List.not_mem_nil⟩
  | cons op ops ih =>
    obtain ⟨dst, m, rfl, hm⟩ := h op List.mem_cons_self
    obtain ⟨out, hsends, hout⟩ := ih (fun op hop => h op (List.mem_cons_of_mem _ hop)) (t.send dst m)
    refine ⟨_, (sends_send t dst m).trans hsends, fun id m' hm' => ?_⟩
    rcases List.mem_append.mp hm' with hm' | hm'
    · split at hm'
      next => exact List.mem_singleton.mp hm' ▸ hm
      next => exact absurd hm' List.not_mem_nil
    · exact hout id m' hm'

/-- A message to all users is silent if it is for each. -/
theorem silent_sendAllOps (s : Server) {us : List User} {m : User → ClientMessage}
    (hm : ∀ u, (m u).Silent) : ∀ op ∈ s.sendAllOps us m, op.Silent := by
  intro op hop
  obtain ⟨u, -, hop⟩ := List.mem_flatMap.mp hop
  split at hop
  next c _ => exact ⟨c.id, m u, List.mem_singleton.mp hop, hm u⟩
  next => exact absurd hop List.not_mem_nil

/-- A group with new metadata, some of whose users were told. -/
theorem quiet_setGroupMetadata (hs : s.Consistent) {g : Group} (hg : s.findGroup g.id = some g)
    (md : AooData) {out : Int → List ClientMessage}
    (h : Sends (Op.apply s (setGroupMetadata g md)) t out) (hout : ∀ id, ∀ m ∈ out id, m.Silent) :
    Quiet s t where
  consistent := hs.annotates (.group hg (some md) h)
  informs id := ((effect_groupMetadata hs.toWellFormed hg (some md)).sends h).informs_silent
    (.refl _) (hout id) fun _ _ => rfl

/-- A user with new metadata, some of whose peers were told. -/
theorem quiet_setUserMetadata (hs : s.Consistent) {g : Group} (hg : s.findGroup g.id = some g)
    (u : User) (md : AooData) {out : Int → List ClientMessage}
    (h : Sends (Op.apply s (setUserMetadata g u md)) t out)
    (hout : ∀ id, ∀ m ∈ out id, m.Silent) : Quiet s t where
  consistent := hs.annotates (.user hg u.id (some md) h)
  informs id := by
    obtain ⟨m, hmeta, hm⟩ := effect_userMetadata hs.toWellFormed hg u.id (some md)
    exact (hmeta.sends h).informs_silent hm (hout id) fun _ _ => rfl

/-- **An update that stops**: metadata is set by `f`, then the members are told, and then there may be
a reply. -/
theorem quiet_update {f : Server → Server} {xs rest : List Op}
    (hset : ∀ {t out}, Sends (f s) t out → (∀ id, ∀ m ∈ out id, m.Silent) → Quiet s t)
    (hxs : ∀ op ∈ xs, op.Silent)
    (h : run T ⟨s, b, []⟩ (.modify f :: (xs ++ rest)) = .error st) (hrest : rest.length ≤ 1) :
    Quiet s st.server := by
  have h : run T ⟨f s, b, []⟩ (xs ++ rest) = .error st := h
  obtain ⟨zs, dst, m, ys, heq, hserver⟩ := run_error h
  -- What was done is sending to the members: the reply is the last step.
  have hlength : zs.length ≤ xs.length := by
    have hboth := congrArg List.length heq
    simp only [List.length_append, List.length_cons] at hboth
    omega
  have hdone : zs <+: xs :=
    List.prefix_of_prefix_length_le (heq ▸ List.prefix_append zs _) (List.prefix_append xs rest)
      hlength
  obtain ⟨out, hsends, hout⟩ := sends_silent (fun op hop => hxs op (hdone.subset hop)) (f s)
  rw [hserver]
  exact hset hsends hout

/-- A request to update a group is quiet when it stops at an exception. -/
theorem quiet_doGroupUpdateOps (hs : s.Consistent) {group : Int} {md : AooData}
    (h : run T ⟨s, b, []⟩ (s.doGroupUpdateOps client token group md) = .error st) :
    Quiet s st.server := by
  unfold doGroupUpdateOps at h
  split at h
  next => cases h
  next g hg =>
    rw [← (findGroup_mem hg).2] at hg
    split at h
    next => cases h
    next =>
      exact quiet_update (quiet_setGroupMetadata hs hg md)
        (silent_sendAllOps s fun _ => .groupChanged ..) h (Nat.le_refl 1)

/-- So is one to update a user. -/
theorem quiet_doUserUpdateOps (hs : s.Consistent) {group user : Int} {md : AooData}
    (h : run T ⟨s, b, []⟩ (s.doUserUpdateOps client token group user md) = .error st) :
    Quiet s st.server := by
  unfold doUserUpdateOps at h
  split at h
  next => cases h
  next g hg =>
    rw [← (findGroup_mem hg).2] at hg
    split at h
    next => cases h
    next u _ =>
      exact quiet_update (quiet_setUserMetadata hs hg u md)
        (silent_sendAllOps s fun _ => .peerChanged ..) h (Nat.le_refl 1)

/-- So is an update of a group by the server. -/
theorem quiet_updateGroupOps (hs : s.Consistent) {g : Group} (hg : s.findGroup g.id = some g)
    {md : AooData} (h : run T ⟨s, b, []⟩ (s.updateGroupOps g md) = .error st) :
    Quiet s st.server := by
  rw [updateGroupOps, ← List.append_nil (s.sendAllOps _ _)] at h
  exact quiet_update (quiet_setGroupMetadata hs hg md)
    (silent_sendAllOps s fun _ => .groupChanged ..) h (Nat.zero_le 1)

/-- So is an update of a user by the server. -/
theorem quiet_updateUserOps (hs : s.Consistent) {g : Group} (hg : s.findGroup g.id = some g)
    {u : User} {md : AooData} (h : run T ⟨s, b, []⟩ (s.updateUserOps g u md) = .error st) :
    Quiet s st.server := by
  rw [updateUserOps, ← List.append_nil (s.sendAllOps _ _)] at h
  refine quiet_update (quiet_setUserMetadata hs hg u md) (silent_sendAllOps s fun member => ?_)
    h (Nat.zero_le 1)
  split
  next => exact .userChanged ..
  next => exact .peerChanged ..

/-- Nothing was done before the only message. -/
theorem quiet_send (hs : s.Consistent) {dst : Int} {m : ClientMessage}
    (h : run T ⟨s, b, []⟩ [.send dst m] = .error st) : Quiet s st.server := by
  by_cases hfits : (b.start m.extra).Fits (m.osc T)
  · rw [run_send_of_fits ⟨s, b, []⟩ hfits] at h
    cases h
  · have hstop : run T ⟨s, b, []⟩ [.send dst m] = .error ⟨s, b.start m.extra, []⟩ :=
      run_send_of_not_fits hfits []
    rw [hstop] at h
    injection h with h
    rw [← h]
    exact .refl hs

/-- Errors always fit. -/
theorem allFit_sendErrorOps (b : SendBuffer) (dst token : Int) (type : RequestType)
    (e : AooError) : AllFit T b (sendErrorOps dst token type e) := by
  cases type with
  | login | groupJoin | groupLeave | custom => exact ⟨b.fits_error T _ token e, trivial⟩
  | groupUpdate | userUpdate => trivial

/-- So do the messages about a user that leaves. -/
theorem allFit_doGroupLeaveOps (s : Server) (b : SendBuffer) (client : ClientEndpoint)
    (token group : Int) : AllFit T b (s.doGroupLeaveOps client token group) := by
  unfold doGroupLeaveOps
  split
  next => exact allFit_sendErrorOps b ..
  next g _ =>
    split
    next => exact allFit_sendErrorOps b ..
    next u _ =>
      refine allFit_of_forall fun dst m hm b => ?_
      rcases List.mem_append.mp hm with hm | hm
      · obtain ⟨peer, -, hm⟩ := List.mem_flatMap.mp hm
        split at hm
        next =>
          cases List.mem_singleton.mp hm
          exact b.fits_peerLeave T g.id u.id
        next => exact absurd hm List.not_mem_nil
      · simp only [List.mem_cons, reduceCtorEq, Op.send.injEq, List.not_mem_nil, or_false,
          false_or] at hm
        rw [hm.2]
        exact b.fits_groupLeave T token

/-- **A request that is carried out**: if the messages of a join fit, an exception is of no concern to
the groups. -/
theorem quiet_respondOps (hs : s.Consistent) {r : Request} {response : Response}
    (hjoin : ∀ q a, r = .groupJoin q → response = .groupJoin a →
      AllFit T b (s.doGroupJoinOps client token q a))
    (h : run T ⟨s, b, []⟩ (s.respondOps client token r response) = .error st) :
    Quiet s st.server := by
  unfold respondOps at h
  split at h
  next version _ _ md =>
    exact absurd h (AllFit.run_ne_error ⟨b.fits_login T token client.id md, trivial⟩)
  next q a => exact absurd h (AllFit.run_ne_error (hjoin q a rfl rfl))
  next group =>
    exact absurd h (AllFit.run_ne_error
      (allFit_doGroupLeaveOps s b client token group))
  next => exact quiet_doGroupUpdateOps hs h
  next => exact quiet_doUserUpdateOps hs h
  next => exact quiet_send hs h
  next => cases h

/-- **A call of `handleRequest` that throws.** A denial may be too long. -/
theorem quiet_handleRequestOps (hs : s.Consistent) {r : Request}
    {result : Except (AooError × Option (Int × String)) Response}
    (hjoin : ∀ q a, r = .groupJoin q → result = .ok (.groupJoin a) →
      AllFit T b (s.doGroupJoinOps client token q a))
    (h : run T ⟨s, b, []⟩ (s.handleRequestOps client token r result) = .error st) :
    Quiet s st.server := by
  cases result with
  | ok response =>
    refine quiet_respondOps hs (fun q a hq ha => ?_) h
    exact hjoin q a hq (congrArg Except.ok ha)
  | error e =>
    cases r with
    | login | groupJoin | groupLeave | custom => exact quiet_send hs h
    | groupUpdate | userUpdate => cases h

/-- A request that is not taken over gets a default response, if there is one. -/
theorem performOps_eq (s : Server) (client : ClientEndpoint) (token : Int) (r : Request) :
    s.performOps client token r =
      match defaultResponse r with
      | some response => s.respondOps client token r response
      | none => sendErrorOps client.id token .custom .unhandledRequest := by
  cases r <;> rfl

/-- **A message of a client whose handler throws.** The client is removed after this. -/
theorem quiet_clientMessageOps (hs : s.Consistent) {m : ServerMessage} {taken : Bool}
    (hc : s.findClient client.id = some client)
    (hjoin : taken = false → ∀ token q, s.request client.id m = some (token, .groupJoin q) →
      AllFit T b (s.doGroupJoinOps client token q {}))
    (h : run T ⟨s, b, []⟩ (s.clientMessageOps client m taken) = .error st) :
    Quiet s st.server ∧ ¬ (taken = true ∧ (s.request client.id m).isSome) := by
  unfold clientMessageOps at h
  split at h
  next =>
    split at h
    next => cases h
    next =>
      split at h
      next =>
        exact absurd h (AllFit.run_ne_error ⟨b.fits_pong T, trivial⟩)
      next => cases h
  next type token hm =>
    split at h
    next => cases h
    next hopen =>
      refine ⟨?_, hopen⟩
      unfold handleMessageOps at h
      split at h
      next => cases h
      next hactive =>
        have hnote : ∀ id, Informs [] s (s.noteAddresses client.id m) id :=
          fun _ => informs_noteAddresses hs.toWellFormed client.id m
        have hs' := hs.noteAddresses client.id m
        suffices hquiet : Quiet (s.noteAddresses client.id m) st.server from
          ⟨hquiet.consistent, fun id => (hnote id).trans (hquiet.informs id)⟩
        change run T ⟨s.noteAddresses client.id m, b, []⟩ _ = _ at h
        split at h
        next e _ =>
          exact absurd h (AllFit.run_ne_error
            (allFit_sendErrorOps b client.id token type e))
        next r hr =>
          rw [performOps_eq] at h
          split at h
          next response hresponse =>
            refine quiet_respondOps hs' (fun q a hq ha => ?_) h
            subst hq
            obtain rfl : a = {} := by
              rw [ha] at hresponse
              cases hresponse
              rfl
            have hrequest : s.request client.id m = some (token, .groupJoin q) := by
              unfold request
              rw [hc, hm]
              simp only [if_neg hactive, hr]
            have hnot : taken = false := by
              refine Bool.eq_false_iff.mpr fun htaken => hopen ⟨htaken, ?_⟩
              rw [hrequest]
              rfl
            -- A join has no addresses.
            obtain ⟨token', q', rfl, -⟩ := groupJoin_of_checkRequest hr
            exact hjoin hnot token q hrequest
          next =>
            exact absurd h (AllFit.run_ne_error
              (allFit_sendErrorOps b client.id token .custom _))

/-! ## One action -/

/-- The steps of the join that an action carries out. -/
def Action.joinOps (s : Server) : Action → List Op
  | .handleMessage client m false =>
    match s.findClient client, s.request client m with
    | some c, some (token, .groupJoin r) => s.doGroupJoinOps c token r {}
    | _, _ => []
  | .handleRequest client token (.groupJoin r) (.ok (.groupJoin response)) =>
    match s.findClient client with
    | some c => s.doGroupJoinOps c token r response
    | none => []
  | _ => []

/-- A function runs to its end or stops at an exception. -/
theorem thrown_cases {s' : Server} {ops : List Op} (h : ops.foldl Op.apply s = s') :
    (thrown (run T ⟨s, b, []⟩ ops)).server = s' ∨
      ∃ st, run T ⟨s, b, []⟩ ops = .error st ∧ (thrown (run T ⟨s, b, []⟩ ops)).server = st.server := by
  cases hrun : run T ⟨s, b, []⟩ ops with
  | ok st => exact .inl ((run_ok hrun).trans h)
  | error st => exact .inr ⟨st, rfl, rfl⟩

/-- **What an action does** if the messages of its join fit: the same as without a buffer, or it stops
without any concern to the groups. In this case the client is removed whose message it was. -/
theorem stepSending_cases (hs : s.Consistent) {a : Action} (hfits : AllFit T b (a.joinOps s)) :
    (s.stepSending T b a).1 = s.step a ∨
      (Quiet s (s.stepSending T b a).1 ∧ ∀ client m taken, a ≠ .handleMessage client m taken) ∨
      ∃ client m taken t, a = .handleMessage client m taken ∧
        ¬ (taken = true ∧ (s.request client m).isSome) ∧ Quiet s t ∧
        (s.stepSending T b a).1 = t.removeClient client := by
  cases a with
  | handleMessage client m taken =>
    cases hc : s.findClient client with
    | none =>
      refine .inl ?_
      rw [step, handleMessage, stepSending, hc]
    | some c =>
      have hid := findClient_id hc
      have heq : (s.stepSending T b (.handleMessage client m taken)).1 =
          (outcome client (run T ⟨s, b, []⟩ (s.clientMessageOps c m taken))).server := by
        rw [stepSending, hc]
      rw [heq]
      cases hrun : run T ⟨s, b, []⟩ (s.clientMessageOps c m taken) with
      | ok st => exact .inl ((run_ok hrun).trans (foldl_clientMessageOps hc m taken))
      | error st =>
        obtain ⟨hquiet, hopen⟩ := quiet_clientMessageOps hs (hid.symm ▸ hc)
          (fun htaken token q hrequest => by
            rw [htaken, Action.joinOps, hc, ← hid, hrequest] at hfits
            exact hfits) hrun
        exact .inr (.inr ⟨client, m, taken, st.server, rfl, hid ▸ hopen, hquiet, rfl⟩)
  | handleRequest client token r result =>
    cases hc : s.findClient client with
    | none =>
      refine .inl ?_
      rw [step, handleRequest, stepSending, hc]
    | some c =>
      have heq : (s.stepSending T b (.handleRequest client token r result)).1 =
          (thrown (run T ⟨s, b, []⟩ (s.handleRequestOps c token r result))).server := by
        rw [stepSending, hc]
      rw [heq]
      rcases thrown_cases (T := T) (b := b) (foldl_handleRequestOps hc token r result) with
        hok | ⟨st, hrun, hserver⟩
      · exact .inl hok
      · rw [hserver]
        refine .inr (.inl ⟨quiet_handleRequestOps hs (fun q a hq ha => ?_) hrun, by simp⟩)
        subst hq ha
        rw [Action.joinOps, hc] at hfits
        exact hfits
  | updateGroup group md =>
    cases hg : s.findGroup group with
    | none =>
      refine .inl ?_
      rw [step, updateGroup, stepSending, hg]
    | some g =>
      have heq : (s.stepSending T b (.updateGroup group md)).1 =
          (thrown (run T ⟨s, b, []⟩ (s.updateGroupOps g md))).server := by
        rw [stepSending, hg]
      rw [heq]
      rcases thrown_cases (T := T) (b := b) (foldl_updateGroupOps hg md) with
        hok | ⟨st, hrun, hserver⟩
      · exact .inl hok
      · rw [hserver]
        have hg' : s.findGroup g.id = some g := (findGroup_mem hg).2.symm ▸ hg
        exact .inr (.inl ⟨quiet_updateGroupOps hs hg' hrun, by simp⟩)
  | updateUser group user md =>
    cases hg : s.findGroup group with
    | none =>
      refine .inl ?_
      rw [step, updateUser, stepSending, hg]
    | some g =>
      cases hu : g.findUser user with
      | none =>
        refine .inl ?_
        rw [step, updateUser, stepSending, hg]
        simp only [hu]
      | some u =>
        have heq : (s.stepSending T b (.updateUser group user md)).1 =
            (thrown (run T ⟨s, b, []⟩ (s.updateUserOps g u md))).server := by
          rw [stepSending, hg]
          simp only [hu]
        rw [heq]
        rcases thrown_cases (T := T) (b := b) (foldl_updateUserOps hg hu md) with
          hok | ⟨st, hrun, hserver⟩
        · exact .inl hok
        · rw [hserver]
          have hg' : s.findGroup g.id = some g := (findGroup_mem hg).2.symm ▸ hg
          exact .inr (.inl ⟨quiet_updateUserOps hs hg' hrun, by simp⟩)
  | acceptClient | removeClient | addGroup | removeGroup | addUserToGroup | removeUserFromGroup =>
    exact .inl rfl

end

end Server

end Aoo.Net
