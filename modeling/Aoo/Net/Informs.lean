import Aoo.Net.Membership
import Aoo.Net.View

/-!
# What the clients are told

When the server changes the users of a group, it tells the clients. `Informs` says that it does
so correctly: a client whose lists were right before the change has the right lists again
when it has read the new messages. This is shown for each operation of the server. It
needs that no client has two users in one group (`OneUser`), because the client would not know about
one of them.

A response is found by its token, so what a client makes of it depends on the request that
is waiting for it. `Awaits` says which those are.
-/

namespace Aoo.Net

open Lib

/-! ## Tokens -/

/-- The token of a response. -/
def ClientMessage.token? : ClientMessage → Option Int
  | .error .login .. => none
  | .error _ token .. | .groupJoin token _ | .groupLeave token | .groupUpdate token _
  | .userUpdate token _ | .request token .. => some token
  | .login .. | .peerJoin _ | .peerLeave .. | .groupChanged .. | .userChanged .. | .peerChanged ..
  | .groupEject _ | .pong => none

namespace Client

/-- The command that a token stands for. -/
def pending (c : Client) (token : Int) : Option Command :=
  (Keyed.lookup Prod.fst token c.pendingRequests).map Prod.snd

/-- A response goes to the request with its token. -/
theorem handleServerMessage_token {c : Client} {m : ClientMessage} {token : Int}
    (hc : c.state ≠ .disconnected) (hm : m.token? = some token) :
    c.handleServerMessage m = c.respond token m := by
  unfold handleServerMessage
  rw [if_neg hc]
  cases m with
  | error type token' result code message =>
    cases type with
    | login => cases hm
    | groupJoin | groupLeave | groupUpdate | userUpdate | custom =>
      injection hm with hm
      rw [← hm]
  | groupJoin | groupLeave | groupUpdate | userUpdate | request =>
    injection hm with hm
    rw [← hm]
  | login | peerJoin | peerLeave | groupChanged | userChanged | peerChanged | groupEject | pong =>
    cases hm

/-- A function of the client that does not look at its requests, and changes them only when the
client closes. -/
def Frames (f : Client → Client) (c : Client) : Prop :=
  (∃ c' : Client, ∀ xs n, f { c with pendingRequests := xs, nextToken := n } =
    { c' with pendingRequests := xs, nextToken := n }) ∨
  ∀ xs n, f { c with pendingRequests := xs, nextToken := n } =
    ({ c with pendingRequests := xs, nextToken := n } : Client).close

/-- A function that frames the client draws no token. -/
theorem Frames.nextToken {f : Client → Client} {c : Client} (h : Frames f c) :
    (f c).nextToken = c.nextToken := by
  rcases h with ⟨c', h⟩ | h
  · rw [show f c = _ from h c.pendingRequests c.nextToken]
  · rw [show f c = c.close from h c.pendingRequests c.nextToken]
    rfl

/-- It keeps the pending requests, or closes. -/
theorem Frames.pendingRequests {f : Client → Client} {c : Client} (h : Frames f c) :
    (f c).pendingRequests = c.pendingRequests ∨ (f c).state = .disconnected ∧
      (f c).pendingRequests = [] := by
  rcases h with ⟨c', h⟩ | h
  · refine .inl ?_
    rw [show f c = _ from h c.pendingRequests c.nextToken]
  · rw [show f c = c.close from h c.pendingRequests c.nextToken]
    exact .inr ⟨rfl, rfl⟩

/-- A message that is no response leaves the requests alone, or the client closes. -/
theorem frames_handleServerMessage (c : Client) {m : ClientMessage} (hm : m.token? = none) :
    Frames (handleServerMessage · m) c := by
  by_cases hc : c.state = .disconnected
  · exact .inl ⟨c, fun xs n => handleServerMessage_disconnected
      (c := { c with pendingRequests := xs, nextToken := n }) hc m⟩
  · have hopen : ∀ xs n, ({ c with pendingRequests := xs, nextToken := n } : Client).state ≠
        .disconnected := fun _ _ => hc
    cases m with
    | error type token' result code message =>
      cases type with
      | login => exact .inr fun xs n => if_neg (hopen xs n)
      | groupJoin | groupLeave | groupUpdate | userUpdate | custom => cases hm
    | groupJoin | groupLeave | groupUpdate | userUpdate | request => cases hm
    | login token version id metadata =>
      have heq : ∀ xs n, ({ c with pendingRequests := xs, nextToken := n } : Client).handleServerMessage
          (.login token version id metadata) =
          ({ c with pendingRequests := xs, nextToken := n } : Client).handleLogin version :=
        fun xs n => if_neg (hopen xs n)
      unfold handleLogin at heq
      cases hversion : Server.checkVersion version with
      | ok v =>
        refine .inl ⟨{ c with state := .connected }, fun xs n => (heq xs n).trans ?_⟩
        rw [hversion]
      | error e =>
        refine .inr fun xs n => (heq xs n).trans ?_
        rw [hversion]
    | peerJoin p =>
      refine .inl ⟨c.handlePeerJoin p, fun xs n => (if_neg (hopen xs n)).trans ?_⟩
      unfold handlePeerJoin findGroupMembershipByName
      dsimp only
      split
      next => rfl
      next => split <;> rfl
    | peerLeave group user =>
      refine .inl ⟨c.handlePeerLeave group user, fun xs n => (if_neg (hopen xs n)).trans ?_⟩
      unfold handlePeerLeave findGroupMembership
      dsimp only
      split
      next => rfl
      next => split <;> rfl
    | groupEject group => exact .inl ⟨c.leaveGroup group, fun xs n => if_neg (hopen xs n)⟩
    | groupChanged | userChanged | peerChanged | pong => exact .inl ⟨c, fun xs n => if_neg (hopen xs n)⟩

/-- The command of a response changes nothing but the groups, or the client closes. -/
theorem frames_handleResponse (c : Client) (cmd : Command) (m : ClientMessage) :
    Frames (handleResponse · cmd m) c := by
  unfold Frames handleResponse
  split
  next => exact .inl ⟨c, fun _ _ => rfl⟩
  next r _ reply =>
    refine .inl ⟨c.joinGroup r reply, fun xs n => ?_⟩
    unfold joinGroup findGroupMembershipByName
    dsimp only
    split <;> rfl
  next => exact .inr fun _ _ => rfl
  next group _ => exact .inl ⟨c.leaveGroup group, fun _ _ => rfl⟩
  next => exact .inl ⟨c, fun _ _ => rfl⟩
  next => exact .inr fun _ _ => rfl
  next => exact .inl ⟨c, fun _ _ => rfl⟩
  next => exact .inl ⟨c, fun _ _ => rfl⟩

/-- A pending request gets its response, and is not pending any more. -/
theorem respond_eq {c : Client} {token : Int} {cmd : Command} (h : c.pending token = some cmd)
    (m : ClientMessage) :
    c.respond token m = { c.handleResponse cmd m with
      pendingRequests := Keyed.remove Prod.fst token (c.handleResponse cmd m).pendingRequests } := by
  obtain ⟨x, hx, rfl⟩ := Option.map_eq_some_iff.mp h
  unfold respond
  rw [hx]

/-- A response that nobody waits for is dropped. -/
theorem respond_none {c : Client} {token : Int} (h : c.pending token = none) (m : ClientMessage) :
    c.respond token m = c := by
  unfold respond
  rw [Option.map_eq_none_iff.mp h]

/-- A request whose response is not among the messages stays pending. -/
theorem pending_read {c : Client} {ms : List ClientMessage} {token : Int}
    (hms : ∀ m ∈ ms, m.token? ≠ some token) (hstate : (c.read ms).state ≠ .disconnected) :
    (c.read ms).pending token = c.pending token := by
  induction ms generalizing c with
  | nil => rfl
  | cons m ms ih =>
    have hmid : (c.handleServerMessage m).state ≠ .disconnected := by
      intro hclosed
      rw [read, List.foldl_cons] at hstate
      exact hstate ((congrArg Client.state (read_disconnected hclosed ms)).trans hclosed)
    have hhead : (c.handleServerMessage m).pending token = c.pending token := by
      cases hm : m.token? with
      | none =>
        rcases (frames_handleServerMessage c hm).pendingRequests with hsame | ⟨hclosed, -⟩
        · rw [pending, hsame, pending]
        · exact absurd hclosed hmid
      | some token' =>
        have hne : token ≠ token' := by
          intro heq
          exact hms m (List.mem_cons_self ..) (heq ▸ hm)
        have hc : c.state ≠ .disconnected := by
          intro hclosed
          rw [handleServerMessage_disconnected hclosed] at hmid
          exact hmid hclosed
        rw [handleServerMessage_token hc hm] at hmid ⊢
        cases hp : c.pending token' with
        | none => rw [respond_none hp]
        | some cmd =>
          rw [respond_eq hp] at hmid ⊢
          rcases (frames_handleResponse c cmd m).pendingRequests with hsame | ⟨hclosed, -⟩
          · rw [pending, hsame, Keyed.lookup_remove_of_ne hne, pending]
          · exact absurd hclosed hmid
    have htail := ih (fun m' hm' => hms m' (List.mem_cons_of_mem _ hm')) hstate
    exact htail.trans hhead

/-- The requests with these tokens wait for a response, and are such as given. -/
def Awaits (c : Client) (xs : List (Int × (Command → Prop))) : Prop :=
  ∀ x ∈ xs, ∃ cmd, x.2 cmd ∧ c.pending x.1 = some cmd

/-- A client that is open was open before. -/
theorem open_of_read {c : Client} {ms : List ClientMessage}
    (h : (c.read ms).state ≠ .disconnected) : c.state ≠ .disconnected := by
  intro hclosed
  rw [read_disconnected hclosed] at h
  exact h hclosed

/-- Requests that are not answered are still awaited. -/
theorem Awaits.read {c : Client} {xs : List (Int × (Command → Prop))} {ms : List ClientMessage}
    (h : c.Awaits xs) (hms : ∀ m ∈ ms, ∀ token ∈ m.token?, token ∉ xs.map Prod.fst)
    (hstate : (c.read ms).state ≠ .disconnected) : (c.read ms).Awaits xs := by
  intro x hx
  obtain ⟨cmd, hcmd, hp⟩ := h x hx
  refine ⟨cmd, hcmd, ?_⟩
  rw [pending_read (fun m hm htoken => hms m hm x.1 htoken (List.mem_map_of_mem hx)) hstate]
  exact hp

/-! ## Messages that do not touch the lists -/

/-- The message does not touch the lists of a client that awaits `xs`. -/
def Harmless (xs : List (Int × (Command → Prop))) (m : ClientMessage) : Prop :=
  ∀ c : Client, c.Awaits xs → (c.handleServerMessage m).state ≠ .disconnected →
    (c.handleServerMessage m).groups = c.groups ∧ (c.handleServerMessage m).peers = c.peers

end Client

/-- The message is for the user of the client only. -/
inductive ClientMessage.Silent : ClientMessage → Prop
  | groupChanged (group user : Int) (metadata : Option AooData) :
    Silent (.groupChanged group user metadata)
  | userChanged (group user : Int) (metadata : Option AooData) :
    Silent (.userChanged group user metadata)
  | peerChanged (group user : Int) (metadata : Option AooData) :
    Silent (.peerChanged group user metadata)
  | pong : Silent .pong

/-- Silent messages are no responses. -/
theorem ClientMessage.Silent.token? {m : ClientMessage} (h : m.Silent) : m.token? = none := by
  cases h with
  | groupChanged | userChanged | peerChanged | pong => rfl

namespace Client

/-- They change nothing that the client knows. -/
theorem read_silent {c : Client} {ms : List ClientMessage} (h : ∀ m ∈ ms, m.Silent) :
    c.read ms = c := by
  induction ms with
  | nil => rfl
  | cons m ms ih =>
    have hsame : c.handleServerMessage m = c := by
      unfold handleServerMessage
      split
      next => rfl
      next =>
        cases h m (List.mem_cons_self ..) with
        | groupChanged | userChanged | peerChanged | pong => rfl
    rw [read, List.foldl_cons, hsame]
    exact ih fun m' hm' => h m' (List.mem_cons_of_mem _ hm')

/-- A login response harms no pending request. -/
theorem harmless_login (xs : List (Int × (Command → Prop))) (token : Int) (version : String)
    (id : Int) (metadata : Option AooData) : Harmless xs (.login token version id metadata) := by
  intro c _ hstate
  unfold handleServerMessage at hstate ⊢
  split
  next => exact ⟨rfl, rfl⟩
  next hc =>
    rw [if_neg hc] at hstate
    simp only [handleLogin] at hstate ⊢
    split
    next => exact ⟨rfl, rfl⟩
    next heq =>
      rw [heq] at hstate
      exact absurd rfl hstate

/-- Nor does a pong. -/
theorem harmless_pong (xs : List (Int × (Command → Prop))) : Harmless xs .pong := by
  intro c _ _
  have hsame : c.read [.pong] = c := read_silent fun m hm => List.mem_singleton.mp hm ▸ .pong
  rw [show c.handleServerMessage .pong = c from hsame]
  exact ⟨rfl, rfl⟩

/-- A response that leaves the lists alone whatever command it is for, or closes the client. -/
theorem harmless_response {xs : List (Int × (Command → Prop))} {m : ClientMessage} {token : Int}
    (hm : m.token? = some token)
    (h : ∀ (c : Client) cmd, c.Awaits xs → c.pending token = some cmd →
      (c.handleResponse cmd m).state ≠ .disconnected →
        (c.handleResponse cmd m).groups = c.groups ∧ (c.handleResponse cmd m).peers = c.peers) :
    Harmless xs m := by
  intro c hc hstate
  by_cases hclosed : c.state = .disconnected
  · rw [handleServerMessage_disconnected hclosed]
    exact ⟨rfl, rfl⟩
  · rw [handleServerMessage_token hclosed hm] at hstate ⊢
    cases hp : c.pending token with
    | none =>
      rw [respond_none hp]
      exact ⟨rfl, rfl⟩
    | some cmd =>
      rw [respond_eq hp] at hstate ⊢
      exact h c cmd hc hp hstate

/-- An error ends its own request only. -/
theorem harmless_error (xs : List (Int × (Command → Prop))) (type : RequestType) (token : Int)
    (result : AooError) (code : Int) (message : String) :
    Harmless xs (.error type token result code message) := by
  cases type with
  | login =>
    intro c _ hstate
    unfold handleServerMessage at hstate ⊢
    split
    next => exact ⟨rfl, rfl⟩
    next hc =>
      rw [if_neg hc] at hstate
      exact absurd rfl hstate
  | groupJoin | groupLeave | groupUpdate | userUpdate | custom =>
    exact harmless_response rfl fun c cmd _ _ _ => ⟨rfl, rfl⟩

end Client

namespace Server

/-! ## Informing the clients -/

/-- No client has two users in a group. -/
def OneUser (m : Members) : Prop :=
  ∀ id, id ≠ kAooIdInvalid → ∀ group n user n' user',
    Owns m id n group user → Owns m id n' group user' → user = user'

/-- With fewer users a client still has at most one in each group. -/
theorem OneUser.mono {m m' : Members} (h : OneUser m)
    (hsub : ∀ id, id ≠ kAooIdInvalid → ∀ n g v, Owns m' id n g v → Owns m id n g v) :
    OneUser m' :=
  fun id hid g n v n' v' hv hv' => h id hid g n v n' v' (hsub id hid n g v hv) (hsub id hid n' g v' hv')

/-- A user that leaves makes one fewer. -/
theorem OneUser.leaves {m m' : Members} (h : OneUser m) {group user : Int}
    (hm : Client.Leaves m m' group user) : OneUser m' := by
  refine h.mono fun id hid n g v hown => ?_
  by_cases hgv : g = group ∧ v = user
  · obtain ⟨rfl, rfl⟩ := hgv
    exact absurd hown (hm.not_owns hid n)
  · rw [Owns, hm.other g v hgv] at hown
    exact hown

/-- Metadata makes no users. -/
theorem OneUser.sameClients {m m' : Members} (h : OneUser m) (hm : SameClients m m') : OneUser m' :=
  h.mono fun _ _ _ _ _ hown => (owns_sameClients hm).mp hown

/-- **A client that knows the groups before the change knows them afterwards**, when it has
read what it is sent. The requests that are answered are those in `xs`. -/
structure Informs (xs : List (Int × (Command → Prop))) (s t : Server) (id : Int) : Prop where
  names : KeepsNames s t
  one : OneUser s.member → OneUser t.member
  told : ∀ e', t.findClient id = some e' → ∃ e ms, s.findClient id = some e ∧
    e'.stream = e.stream ++ ms ∧
    (∀ m ∈ ms, ∀ token ∈ m.token?, token ∈ xs.map Prod.fst) ∧
    ∀ c : Client, c.Awaits xs → Client.View s.member id c → (c.read ms).state ≠ .disconnected →
      Client.View t.member id (c.read ms)

variable {s t u : Server} {f : Int → ClientEndpoint → ClientEndpoint} {m : Members} {id : Int}
  {xs : List (Int × (Command → Prop))}

/-- Nothing happens, and the client hears nothing. -/
theorem Informs.refl (s : Server) (id : Int) (xs : List (Int × (Command → Prop))) :
    Informs xs s s id where
  names := keepsNames_of_find (Int.le_refl _) (Int.le_refl _) fun _ g hg => ⟨g, hg, rfl⟩
  one hone := hone
  told e he := ⟨e, [], he, (List.append_nil _).symm, fun _ h => absurd h List.not_mem_nil,
    fun _ _ hview _ => hview⟩

/-- The first change answers nothing. -/
theorem Informs.trans (h : Informs [] s t id) (h' : Informs xs t u id) : Informs xs s u id := by
  refine ⟨h.names.trans h'.names, fun hone => h'.one (h.one hone), fun e'' he'' => ?_⟩
  obtain ⟨e', ms', he', hstream', htokens', hview'⟩ := h'.told e'' he''
  obtain ⟨e, ms, he, hstream, htokens, hview⟩ := h.told e' he'
  have hnone : ∀ x ∈ ms, ∀ token, token ∉ x.token? :=
    fun x hx token htoken => List.not_mem_nil (htokens x hx token htoken)
  refine ⟨e, ms ++ ms', he, ?_, fun x hx token htoken => ?_, fun c hawaits hc hstate => ?_⟩
  · rw [hstream', hstream, List.append_assoc]
  · rcases List.mem_append.mp hx with hx | hx
    · exact absurd htoken (hnone x hx token)
    · exact htokens' x hx token htoken
  · rw [Client.read_append] at hstate ⊢
    have hopen := Client.open_of_read hstate
    have hawaits' := hawaits.read (fun x hx token htoken => absurd htoken (hnone x hx token)) hopen
    exact hview' _ hawaits' (hview c nofun hc hopen) hstate

/-- A client that waits for more is informed as well. -/
theorem Informs.mono (h : Informs xs s t id) {ys : List (Int × (Command → Prop))}
    (htokens : ∀ token ∈ xs.map Prod.fst, token ∈ ys.map Prod.fst)
    (hys : ∀ c : Client, c.Awaits ys → c.Awaits xs) : Informs ys s t id := by
  refine ⟨h.names, h.one, fun e' he' => ?_⟩
  obtain ⟨e, ms, he, hms, hin, hview⟩ := h.told e' he'
  exact ⟨e, ms, he, hms, fun x hx token htoken => htokens token (hin x hx token htoken),
    fun c hc => hview c (hys c hc)⟩

/-- So is one that need not wait at all. -/
theorem Informs.of_nil (h : Informs [] s t id) : Informs xs s t id :=
  h.mono (fun _ htoken => absurd htoken List.not_mem_nil) fun _ _ _ hx => absurd hx List.not_mem_nil

/-- A client is informed if the messages tell it what has changed for it. -/
theorem Effect.informs (h : Effect s t f m) (hone : OneUser s.member → OneUser m)
    (ms : List ClientMessage)
    (hf : ∀ e, s.findClient id = some e → (f id e).stream = e.stream ++ ms)
    (htokens : ∀ x ∈ ms, ∀ token ∈ x.token?, token ∈ xs.map Prod.fst)
    (hview : ∀ c : Client, c.Awaits xs → Client.View s.member id c →
      (c.read ms).state ≠ .disconnected → Client.View m id (c.read ms)) : Informs xs s t id := by
  have hmember : t.member = m := funext fun g => funext fun v => h.member g v
  refine ⟨h.names, fun hbefore => hmember ▸ hone hbefore, fun e' he' => ?_⟩
  rw [h.find] at he'
  obtain ⟨e, he, rfl⟩ := Option.map_eq_some_iff.mp he'
  exact ⟨e, ms, he, hf e he, htokens, fun c hc hv hstate => hmember ▸ hview c hc hv hstate⟩

/-! ## Messages only -/

/-- Nothing happens to the users, and the client gets messages for its user and a
response. -/
theorem Effect.informs_response (h : Effect s t f m) (hm : SameClients s.member m)
    (ms : List ClientMessage) (hms : ∀ x ∈ ms, x.Silent) (client : Int) {x : ClientMessage}
    (hf : ∀ e, s.findClient id = some e →
      (f id e).stream = e.stream ++ (ms ++ if id = client then [x] else []))
    (hx : id = client → Client.Harmless xs x ∧ ∀ token ∈ x.token?, token ∈ xs.map Prod.fst) :
    Informs xs s t id := by
  refine h.informs (fun hone => hone.sameClients hm) _ hf (fun y hy => ?_) fun c hc hv hstate => ?_
  · rcases List.mem_append.mp hy with hy | hy
    · intro token htoken
      rw [(hms y hy).token?] at htoken
      cases htoken
    · split at hy
      next heq =>
        rw [List.mem_singleton.mp hy]
        exact (hx heq).2
      next => cases hy
  · rw [Client.read_append, Client.read_silent hms] at hstate ⊢
    refine Client.View.sameClients ?_ hm
    by_cases heq : id = client
    · rw [if_pos heq] at hstate ⊢
      obtain ⟨hgroups, hpeers⟩ := (hx heq).1 c hc hstate
      exact hv.congr hgroups hpeers
    · rw [if_neg heq]
      exact hv

/-- Nothing happens to the users, and the client gets messages for its user. -/
theorem Effect.informs_silent (h : Effect s t f m) (hm : SameClients s.member m)
    {ms : List ClientMessage} (hms : ∀ x ∈ ms, x.Silent)
    (hf : ∀ e, s.findClient id = some e → (f id e).stream = e.stream ++ ms) : Informs xs s t id := by
  refine h.informs (fun hone => hone.sameClients hm) _ hf (fun x hx token htoken => ?_)
    fun c _ hv _ => ?_
  · rw [(hms x hx).token?] at htoken
    cases htoken
  · rw [Client.read_silent hms]
    exact hv.sameClients hm

/-- An error is told to the client that has asked. -/
theorem informs_sendError (hs : s.WellFormed) (client token : Int) (type : RequestType)
    (result : AooError) (response : Option (Int × String))
    (hxs : type ≠ .login → id = client → token ∈ xs.map Prod.fst) :
    Informs xs s (s.sendError client token type result response) id := by
  have hreply : ∀ m : Int × String,
      Informs xs s (s.send client (.error type token result m.1 m.2)) id := by
    intro m
    refine (Updates.effect (sends_send s client _) hs).informs_response (.refl _) []
      (fun _ h => absurd h List.not_mem_nil) client (fun _ _ => rfl) fun hid =>
        ⟨Client.harmless_error xs type token result _ _, fun token' htoken => ?_⟩
    cases type with
    | login => cases htoken
    | groupJoin | groupLeave | groupUpdate | userUpdate | custom =>
      injection htoken with htoken
      exact htoken ▸ hxs nofun hid
  cases type with
  | login | groupJoin | groupLeave | custom => exact hreply (response.getD (0, ""))
  | groupUpdate | userUpdate => exact .refl s id xs

/-- A login changes no groups. -/
theorem informs_doLogin (hs : s.WellFormed) (client token : Int) (version : String)
    (metadata : Option AooData) : Informs xs s (s.doLogin client token version metadata) id := by
  have hversion := updates_modifyClient s client (f := fun c => { c with version }) fun _ => rfl
  have hlogin := Updates.trans hversion
    (sends_send _ client (.login token aooGetVersionString client metadata))
  refine (hlogin.effect hs).informs_response (.refl _) []
    (fun _ h => absurd h List.not_mem_nil) client
    (x := .login token aooGetVersionString client metadata) (fun e _ => ?_) fun _ =>
    ⟨Client.harmless_login xs token _ client metadata, nofun⟩
  beta_reduce
  split
  next => rfl
  next => rfl

/-! ## Somebody leaves -/

/-- What a client owns in a group are the users with its id. -/
theorem owns_iff (hs : s.WellFormed) {g : Group} (hg : s.findGroup g.id = some g) {n : String}
    {own : Int} : Owns s.member id n g.id own ↔
      g.name = n ∧ ∃ peer ∈ g.users, peer.id = own ∧ peer.client = id := by
  have hwf := hs.wellFormed g (findGroup_mem hg).1
  constructor
  · intro ⟨v, hv, hclient⟩
    obtain ⟨g', hg', hfind, hname⟩ := member_eq_some.mp hv
    rw [hg] at hg'
    injection hg' with hg'
    subst hg'
    obtain ⟨hmem, hown⟩ := Group.findUser_mem hfind
    exact ⟨hname, v, hmem, hown, hclient⟩
  · intro ⟨hname, v, hmem, hown, hclient⟩
    subst hown hname
    exact ⟨v, member_of_find hg (hwf.findUser hmem), hclient⟩

/-- The users of a client in a group. -/
theorem OneUser.eq (h : OneUser s.member) (hs : s.WellFormed) {g : Group}
    (hg : s.findGroup g.id = some g) (hid : id ≠ kAooIdInvalid) {v w : User} (hv : v ∈ g.users)
    (hw : w ∈ g.users) (hvid : v.client = id) (hwid : w.client = id) : v = w := by
  have hwf := hs.wellFormed g (findGroup_mem hg).1
  refine hwf.ids.eq hv hw (h id hid g.id g.name v.id g.name w.id ?_ ?_)
  · exact (owns_iff hs hg).mpr ⟨rfl, v, hv, rfl, hvid⟩
  · exact (owns_iff hs hg).mpr ⟨rfl, w, hw, rfl, hwid⟩

/-- The clients of the other users in the group are told once, and nobody else. -/
theorem leaveMessages_eq (hs : s.WellFormed) (hone : OneUser s.member) {g : Group} (v : User)
    (hg : s.findGroup g.id = some g) (hid : id ≠ kAooIdInvalid) :
    (leaveMessages g v id = [.peerLeave g.id v.id] ∧
      ∃ n own, Owns s.member id n g.id own ∧ own ≠ v.id) ∨
    (leaveMessages g v id = [] ∧ ∀ n own, Owns s.member id n g.id own → own = v.id) := by
  have hwf := hs.wellFormed g (findGroup_mem hg).1
  have heq : leaveMessages g v id = if ∃ peer ∈ g.users, peer.id ≠ v.id ∧ peer.client = id then
      [.peerLeave g.id v.id] else [] := by
    rw [← Keyed.flatMap_single (List.Nodup.of_map _ hwf.ids) fun x hx y hy hpx hpy =>
      hone.eq hs hg hid hx hy hpx.2 hpy.2]
    unfold leaveMessages
    refine List.flatMap_congr fun peer _ => ?_
    by_cases hpeer : peer.id = v.id
    · simp [hpeer]
    · simp [hpeer, eq_comm]
  rw [heq]
  by_cases hex : ∃ peer ∈ g.users, peer.id ≠ v.id ∧ peer.client = id
  · obtain ⟨peer, hmem, hne, hclient⟩ := hex
    refine .inl ⟨if_pos ⟨peer, hmem, hne, hclient⟩, g.name, peer.id, ?_, hne⟩
    exact (owns_iff hs hg).mpr ⟨rfl, peer, hmem, rfl, hclient⟩
  · refine .inr ⟨if_neg hex, fun n own hown => ?_⟩
    obtain ⟨-, peer, hmem, rfl, hclient⟩ := (owns_iff hs hg).mp hown
    by_contra hne
    exact hex ⟨peer, hmem, hne, hclient⟩

/-- Messages to the peers are no responses. -/
theorem token_leaveMessages {g : Group} {v : User} {x : ClientMessage}
    (hx : x ∈ leaveMessages g v id) : x.token? = none := by
  obtain ⟨peer, -, hx⟩ := List.mem_flatMap.mp hx
  split at hx
  next =>
    split at hx
    next =>
      rw [List.mem_singleton.mp hx]
      rfl
    next => cases hx
  next => cases hx

/-- A user that is removed leaves the users of the groups. -/
theorem leaves_removed {g : Group} {v : User} :
    Client.Leaves s.member (fun group user => if group = g.id ∧ user = v.id then
      if v.persistent then some (g.name, v.unset) else none else s.member group user)
      g.id v.id := by
  refine ⟨fun group user hne => if_neg hne, fun n w hw => ?_⟩
  rw [if_pos ⟨rfl, rfl⟩] at hw
  split at hw
  next =>
    injection hw with hw
    rw [← (Prod.mk.inj hw).2]
    rfl
  next => cases hw

/-- The other clients hear that a user has left. -/
theorem view_leaveMessages (hs : s.WellFormed) (hone : OneUser s.member) {g : Group} {v : User}
    (hg : s.findGroup g.id = some g) (hv : g.findUser v.id = some v) (hactive : v.active = true)
    (hid : id ≠ kAooIdInvalid) (hne : v.client ≠ id) (hm : Client.Leaves s.member m g.id v.id)
    {c : Client} (hc : Client.View s.member id c)
    (hstate : (c.read (leaveMessages g v id)).state ≠ .disconnected) :
    Client.View m id (c.read (leaveMessages g v id)) := by
  have hmember := member_of_find hg hv
  rcases leaveMessages_eq hs hone v hg hid with ⟨heq, n, own, hown, hownne⟩ | ⟨heq, hnone⟩
  · rw [heq] at hstate ⊢
    have hopen := Client.open_of_read hstate
    have hread : c.read [.peerLeave g.id v.id] = c.handlePeerLeave g.id v.id := by
      rw [Client.read, List.foldl_cons, List.foldl_nil, Client.handleServerMessage, if_neg hopen]
    rw [hread]
    exact hc.peerLeave hid hm ⟨g.name, v, hmember, hactive⟩ hown hownne
  · rw [heq]
    refine hc.elsewhere (fun g' w hg' => hm.other g' w fun hand => hg' hand.1) (fun n own hown => ?_)
      fun n own hown => ?_
    · obtain ⟨w, hw, hclient⟩ := hown
      rw [hnone n own ⟨w, hw, hclient⟩, hmember] at hw
      injection hw with hw
      exact hne ((Prod.mk.inj hw).2 ▸ hclient)
    · by_cases howne : own = v.id
      · exact hm.not_owns hid n (howne ▸ hown)
      · rw [Owns, hm.other g.id own fun hand => howne hand.2] at hown
        exact howne (hnone n own hown)

/-- The client of the user is not told that the user has left. -/
theorem leaveMessages_owner (hs : s.WellFormed) (hone : OneUser s.member) {g : Group} {v : User}
    (hg : s.findGroup g.id = some g) (hv : g.findUser v.id = some v) (hactive : v.active = true) :
    leaveMessages g v v.client = [] := by
  have hid : v.client ≠ kAooIdInvalid := of_decide_eq_true hactive
  rcases leaveMessages_eq hs hone v hg hid with ⟨-, n, own, hown, hownne⟩ | ⟨heq, -⟩
  · have hmem := (Group.findUser_mem hv).1
    have hself : Owns s.member v.client g.name g.id v.id :=
      (owns_iff hs hg).mpr ⟨rfl, v, hmem, rfl, rfl⟩
    exact absurd (hone _ hid g.id n own g.name v.id hown hself) hownne
  · exact heq

/-- The client has left the group: it has no other user in it. -/
theorem view_leaveGroup (hone : OneUser s.member) {g : Group} {v : User}
    (hg : s.findGroup g.id = some g) (hv : g.findUser v.id = some v) (hactive : v.active = true)
    (hm : Client.Leaves s.member m g.id v.id) {c : Client}
    (hc : Client.View s.member v.client c) : Client.View m v.client (c.leaveGroup g.id) := by
  have hid : v.client ≠ kAooIdInvalid := of_decide_eq_true hactive
  refine hc.leaveGroup (fun g' w hg' => hm.other g' w fun hand => hg' hand.1) fun n own hown => ?_
  by_cases howne : own = v.id
  · exact hm.not_owns hid n (howne ▸ hown)
  · rw [Owns, hm.other g.id own fun hand => howne hand.2] at hown
    exact howne (hone _ hid g.id n own g.name v.id hown ⟨v, member_of_find hg hv, rfl⟩)

/-- `on_close`, for the other clients. -/
theorem informs_closeGroupUser (hs : s.WellFormed) (hone : OneUser s.member) {g : Group} {v : User}
    (hg : s.findGroup g.id = some g) (hv : g.findUser v.id = some v) (hactive : v.active = true)
    (hid : id ≠ kAooIdInvalid) (hne : v.client ≠ id) :
    Informs [] s (s.closeGroupUser (g.id, v.id)) id := by
  refine (effect_closeGroupUser hs hg hv).informs (fun hone => hone.leaves leaves_removed) _
    (fun e _ => rfl) (fun x hx token htoken => ?_)
    fun c _ hc hstate => view_leaveMessages hs hone hg hv hactive hid hne leaves_removed hc hstate
  rw [token_leaveMessages hx] at htoken
  cases htoken

end Server

/-! ## Requests -/

/-- The commands that become a request. -/
def Server.Request.Fits : Server.Request → Command → Prop
  | .groupJoin r, .groupJoin q => q.groupName = r.groupName
  | .groupLeave group, .groupLeave group' => group' = group
  | .groupUpdate .., .groupUpdate .. => True
  | .userUpdate .., .userUpdate .. => True
  | .custom .., .custom .. => True
  | _, _ => False

/-- What a client awaits that has sent a request. A login is not among the pending requests. -/
def Server.Request.awaited (token : Int) : Server.Request → List (Int × (Command → Prop))
  | .login .. => []
  | r => [(token, r.Fits)]

/-- A client that waits for a response has the request pending. -/
theorem Client.Awaits.pending {c : Client} {token : Int} {p : Command → Prop}
    (h : c.Awaits [(token, p)]) : ∃ cmd, p cmd ∧ c.pending token = some cmd :=
  h (token, p) (List.mem_singleton.mpr rfl)

/-- It reads the response with the handler of that request. -/
theorem Client.read_response {c : Client} {x : ClientMessage} {token : Int} {cmd : Command}
    (hx : x.token? = some token) (hc : c.state ≠ .disconnected) (hp : c.pending token = some cmd) :
    c.read [x] = { c.handleResponse cmd x with
      pendingRequests := Keyed.remove Prod.fst token (c.handleResponse cmd x).pendingRequests } := by
  rw [read, List.foldl_cons, List.foldl_nil, handleServerMessage_token hc hx, respond_eq hp]

namespace Server

variable {s t : Server} {id : Int} {xs : List (Int × (Command → Prop))}

/-- **A client leaves a group.** -/
theorem informs_doGroupLeave (hs : s.WellFormed) (hone : OneUser s.member) {client : ClientEndpoint}
    (hclient : client.id ≠ kAooIdInvalid) (hid : id ≠ kAooIdInvalid) (token group : Int)
    (hxs : id = client.id → xs = (Request.groupLeave group).awaited token) :
    Informs xs s (s.doGroupLeave client token group) id := by
  have herror : ∀ e, Informs xs s (s.sendError client.id token .groupLeave e none) id := by
    intro e
    refine informs_sendError hs client.id token .groupLeave e none fun _ heq => ?_
    rw [hxs heq]
    exact List.mem_singleton.mpr rfl
  unfold doGroupLeave
  split
  next => exact herror _
  next g hg =>
    obtain ⟨-, rfl⟩ := findGroup_mem hg
    split
    next => exact herror _
    next v hv =>
      have hwf := hs.wellFormed g (findGroup_mem hg).1
      have hvclient : v.client = client.id := Keyed.key_of_lookup hv
      have hv' : g.findUser v.id = some v := hwf.findUser (Keyed.mem_of_lookup hv)
      have hactive : v.active = true := decide_eq_true (hvclient ▸ hclient)
      have hleave := Updates.trans (sends_onUserLeftGroup s g v)
        (updates_onGroupLeave (s.onUserLeftGroup g v) client.id g.id v.id false)
      have hupdate := hleave.effect hs
      have hg' : ((s.onUserLeftGroup g v).onGroupLeave client.id g.id v.id false).findGroup g.id =
          some g := by
        rw [findGroup, hleave.groups]
        exact hg
      have hremove := hupdate.trans (effect_doRemove hupdate.wellFormed hg' hv')
      have h := hremove.trans (Updates.effect (sends_send _ client.id (.groupLeave token))
        hremove.wellFormed)
      have hm : Client.Leaves s.member (((s.onUserLeftGroup g v).onGroupLeave client.id g.id v.id
          false).doRemoveUserFromGroup g v).member g.id v.id := by
        have hleaves := leaves_removed (s := s) (g := g) (v := v)
        refine ⟨fun g' w hne => ?_, fun n w hw => ?_⟩
        · rw [hremove.member, hupdate.member]
          exact hleaves.other g' w hne
        · rw [hremove.member, hupdate.member] at hw
          exact hleaves.gone n w hw
      refine h.informs (fun hone => hone.leaves hm) (leaveMessages g v id ++
        if id = client.id then [.groupLeave token] else []) (fun e _ => ?_)
        (fun x hx token' htoken => ?_) fun c hc hview hstate => ?_
      · beta_reduce
        split
        next => simp [leave, ClientEndpoint.told, leaveMessages]
        next => simp [ClientEndpoint.told, leaveMessages]
      · rcases List.mem_append.mp hx with hx | hx
        · rw [token_leaveMessages hx] at htoken
          cases htoken
        · split at hx
          next heq =>
            rw [List.mem_singleton.mp hx] at htoken
            injection htoken with htoken
            rw [hxs heq, ← htoken]
            exact List.mem_singleton.mpr rfl
          next => cases hx
      · by_cases heq : id = client.id
        · rw [hxs heq] at hc
          rw [if_pos heq] at hstate ⊢
          obtain rfl : id = v.client := heq.trans hvclient.symm
          rw [leaveMessages_owner hs hone hg hv' hactive, List.nil_append] at hstate ⊢
          obtain ⟨cmd, hfits, hp⟩ := hc.pending
          have hopen := Client.open_of_read hstate
          rw [Client.read_response rfl hopen hp]
          cases cmd with
          | groupLeave group' =>
            obtain rfl : group' = g.id := hfits
            exact (view_leaveGroup hone hg hv' hactive hm hview).congr rfl rfl
          | groupJoin | groupUpdate | userUpdate | custom => exact absurd hfits (by exact fun h => h)
        · rw [if_neg heq, List.append_nil] at hstate ⊢
          exact view_leaveMessages hs hone hg hv' hactive hid (fun hback => heq (hback ▸ hvclient))
            hm hview hstate

/-- Nothing is sent to a client. -/
theorem Effect.informs_nothing {f : Int → ClientEndpoint → ClientEndpoint} {m : Members}
    (h : Effect s t f m) (hone : OneUser s.member → OneUser m)
    (hf : ∀ e, s.findClient id = some e → (f id e).stream = e.stream)
    (hview : ∀ c, Client.View s.member id c → Client.View m id c) : Informs xs s t id := by
  refine h.informs hone [] (fun e he => ?_) (fun _ hx => absurd hx List.not_mem_nil)
    fun c _ hc _ => hview c hc
  rw [List.append_nil]
  exact hf e he

/-- **The user of the server removes a user from a group.** -/
theorem informs_removeUserFromGroup (hs : s.WellFormed) (hone : OneUser s.member)
    (hid : id ≠ kAooIdInvalid) (group user : Int) :
    Informs [] s (s.removeUserFromGroup group user).1 id := by
  unfold Server.removeUserFromGroup
  split
  next => exact .refl s id []
  next g hg =>
    obtain ⟨-, rfl⟩ := findGroup_mem hg
    split
    next => exact .refl s id []
    next v hv =>
      obtain ⟨-, rfl⟩ := Group.findUser_mem hv
      have hleaves := leaves_removed (s := s) (g := g) (v := v)
      simp only
      split
      next hactive =>
        have hupdate := (updates_ejectUser s g.id v).trans (sends_onUserLeftGroup _ g v)
        have hsame := hupdate.effect hs
        have hg' : ((s.ejectUser g.id v).onUserLeftGroup g v).findGroup g.id = some g := by
          rw [findGroup, hupdate.groups]
          exact hg
        have h := hsame.trans (effect_doRemove hsame.wellFormed hg' hv)
        have hmember : (((s.ejectUser g.id v).onUserLeftGroup g v).doRemoveUserFromGroup g v).member =
            fun group user => if group = g.id ∧ user = v.id then
              if v.persistent then some (g.name, v.unset) else none else s.member group user := by
          funext group user
          rw [h.member, hsame.member]
        rw [← hmember] at hleaves
        have heffect : (fun group user => if group = g.id ∧ user = v.id then
            if v.persistent then some (g.name, v.unset) else none
            else ((s.ejectUser g.id v).onUserLeftGroup g v).member group user) =
            (((s.ejectUser g.id v).onUserLeftGroup g v).doRemoveUserFromGroup g v).member :=
          funext fun group => funext fun user => (h.member group user).symm
        rw [heffect] at h
        refine h.informs (fun hone => hone.leaves hleaves)
          ((if id = v.client then [.groupEject g.id] else []) ++ leaveMessages g v id)
          (fun e _ => ?_) (fun x hx token htoken => ?_) fun c _ hview hstate => ?_
        · beta_reduce
          split
          next => simp [leave, ClientEndpoint.told, leaveMessages]
          next => simp [ClientEndpoint.told, leaveMessages]
        · rcases List.mem_append.mp hx with hx | hx
          · split at hx
            next =>
              rw [List.mem_singleton.mp hx] at htoken
              cases htoken
            next => cases hx
          · rw [token_leaveMessages hx] at htoken
            cases htoken
        · by_cases heq : id = v.client
          · subst heq
            rw [if_pos rfl, leaveMessages_owner hs hone hg hv hactive, List.append_nil] at hstate ⊢
            have hopen := Client.open_of_read hstate
            have hread : c.read [.groupEject g.id] = c.leaveGroup g.id := by
              rw [Client.read, List.foldl_cons, List.foldl_nil, Client.handleServerMessage,
                if_neg hopen]
            rw [hread]
            exact view_leaveGroup hone hg hv hactive hleaves hview
          · rw [if_neg heq, List.nil_append] at hstate ⊢
            exact view_leaveMessages hs hone hg hv hactive hid (fun hback => heq hback.symm) hleaves
              hview hstate
      next hinactive =>
        refine (effect_doRemove hs hg hv).informs_nothing (fun hone => hone.leaves hleaves)
          (fun _ _ => rfl) fun c hview => ?_
        refine hview.inactive hid fun g' w => ?_
        by_cases hgw : g' = g.id ∧ w = v.id
        · obtain ⟨rfl, rfl⟩ := hgw
          refine .inr ⟨?_, hleaves.not_active⟩
          rintro ⟨n, w, hw, hactive⟩
          rw [member_of_find hg hv] at hw
          injection hw with hw
          exact hinactive ((Prod.mk.inj hw).2 ▸ hactive)
        · exact .inl (hleaves.other g' w hgw)

/-- An ejected client hears of each of its users. -/
theorem stream_ejected (group : Int) (us : List User) (id : Int) (c : ClientEndpoint) :
    (ejected group us id c).stream =
      c.stream ++ us.flatMap fun v => if v.client = id then [.groupEject group] else [] := by
  unfold ejected
  induction us generalizing c with
  | nil => exact (List.append_nil _).symm
  | cons v us ih =>
    by_cases hv : v.client = id
    · rw [List.filter_cons_of_pos (by simpa using hv), List.foldl_cons, ih, List.flatMap_cons,
        if_pos hv, leave, if_pos rfl, List.append_assoc]
    · rw [List.filter_cons_of_neg (by simpa using hv), ih, List.flatMap_cons, if_neg hv,
        List.nil_append]

/-- **The user of the server removes a group.** -/
theorem informs_deleteGroup (hs : s.WellFormed) (hone : OneUser s.member)
    (hid : id ≠ kAooIdInvalid) (group : Int) :
    Informs [] s (s.deleteGroup group).1 id := by
  unfold Server.deleteGroup
  cases hg : s.findGroup group with
  | none =>
    rw [removeGroup, hg]
    exact .refl s id []
  | some g =>
    obtain ⟨t, ht, h⟩ := effect_removeGroup hs hg
    obtain ⟨-, rfl⟩ := findGroup_mem hg
    have hwf := hs.wellFormed g (findGroup_mem hg).1
    rw [ht]
    have hnone : ∀ id n user, ¬ Owns (fun group user => if group = g.id then none
        else s.member group user) id n g.id user := by
      rintro id n user ⟨v, hv, _⟩
      beta_reduce at hv
      rw [if_pos rfl] at hv
      cases hv
    have hms : (g.users.flatMap fun v => if v.client = id then [ClientMessage.groupEject g.id]
        else []) = if ∃ v ∈ g.users, v.client = id then [.groupEject g.id] else [] :=
      Keyed.flatMap_single (List.Nodup.of_map _ hwf.ids)
        (fun v hv w hw hvid hwid => hone.eq hs hg hid hv hw hvid hwid) _
    refine h.informs (fun hone => hone.mono fun id' _ n g' v hown => ?_) (if ∃ v ∈ g.users,
      v.client = id then [.groupEject g.id] else []) (fun e _ => ?_) (fun x hx token htoken => ?_)
      fun c _ hview hstate => ?_
    · by_cases hg' : g' = g.id
      · exact absurd (hg' ▸ hown) (hnone id' n v)
      · obtain ⟨w, hw, hclient⟩ := hown
        beta_reduce at hw
        rw [if_neg hg'] at hw
        exact ⟨w, hw, hclient⟩
    · rw [stream_ejected, hms]
    · split at hx
      next =>
        rw [List.mem_singleton.mp hx] at htoken
        cases htoken
      next => cases hx
    · by_cases hex : ∃ v ∈ g.users, v.client = id
      · rw [if_pos hex] at hstate ⊢
        have hopen := Client.open_of_read hstate
        have hread : c.read [.groupEject g.id] = c.leaveGroup g.id := by
          rw [Client.read, List.foldl_cons, List.foldl_nil, Client.handleServerMessage,
            if_neg hopen]
        rw [hread]
        exact hview.leaveGroup (fun g' w hg' => if_neg hg') (hnone id)
      · rw [if_neg hex]
        refine hview.elsewhere (fun g' w hg' => if_neg hg') (fun n own hown => hex ?_) (hnone id)
        obtain ⟨-, v, hv, -, hclient⟩ := (owns_iff hs hg).mp hown
        exact ⟨v, hv, hclient⟩

/-- The user of the server adds a user, who is not active. -/
theorem informs_addUserToGroup (hs : s.WellFormed) (hid : id ≠ kAooIdInvalid) (group : Int)
    (name pwd : String) (metadata : Option AooData) :
    Informs [] s (s.addUserToGroup group name pwd metadata).1 id := by
  unfold Server.addUserToGroup
  split
  next => exact .refl s id []
  next g hg =>
    obtain ⟨-, rfl⟩ := findGroup_mem hg
    cases hcount : g.getNextUserId with
    | mk user g₁ =>
    simp only
    split
    next g₂ hadd =>
      generalize hv : (⟨name, pwd, user, g₁.id, kAooIdInvalid, metadata, {}, kAooUserPersistent⟩ :
        User) = v at hadd
      have hvid : v.id = user := by rw [← hv]
      subst hvid
      obtain ⟨h, -, -, -, -, hfresh⟩ := effect_addUser hs hg hcount hadd (by rw [← hv])
        (.inr (User.persistent_of_flags (by rw [← hv])))
      have hbefore : s.member g.id v.id = none := by
        rw [member, hg, Option.bind_some, hfresh]
        rfl
      have hclient : v.client = kAooIdInvalid := by rw [← hv]
      have hinactive : ∀ g' w, (if g' = g.id ∧ w = v.id then some (g.name, v) else s.member g' w) =
          s.member g' w ∨ (¬ Active s.member g' w ∧
            ¬ Active (fun g' w => if g' = g.id ∧ w = v.id then some (g.name, v)
              else s.member g' w) g' w) := by
        intro g' w
        by_cases hgw : g' = g.id ∧ w = v.id
        · obtain ⟨rfl, rfl⟩ := hgw
          refine .inr ⟨?_, ?_⟩
          · rintro ⟨n, w, hw, _⟩
            rw [hbefore] at hw
            cases hw
          · rintro ⟨n, w, hw, hactive⟩
            beta_reduce at hw
            rw [if_pos ⟨rfl, rfl⟩] at hw
            injection hw with hw
            rw [← (Prod.mk.inj hw).2] at hactive
            exact of_decide_eq_true hactive hclient
        · exact .inl (if_neg hgw)
      refine h.informs_nothing (fun hone => hone.mono fun id' hid' n g' w hown => ?_)
        (fun _ _ => rfl) fun c hview => hview.inactive hid hinactive
      rcases hinactive g' w with heq | ⟨-, hnot⟩
      · rw [Owns, heq] at hown
        exact hown
      · exact absurd (hown.active hid') hnot
    next =>
      exact (effect_nextUserId hs hg hcount).1.informs_nothing (fun hone => hone) (fun _ _ => rfl)
        fun _ hview => hview

/-- A new group has no users. -/
theorem informs_createGroup (hs : s.WellFormed) (name pwd : String) (metadata : Option AooData)
    (relay : Option IpHost) : Informs [] s (s.createGroup name pwd metadata relay).1 id := by
  unfold Server.createGroup
  simp only
  split
  next t ht =>
    exact (effect_addGroup hs rfl rfl rfl ht).1.informs_nothing (fun hone => hone) (fun _ _ => rfl)
      fun _ hview => hview
  next =>
    exact (effect_nextGroupId hs).informs_nothing (fun hone => hone) (fun _ _ => rfl)
      fun _ hview => hview

/-- **A client is gone**, and its users leave their groups. -/
theorem informs_removeClient (hs : s.Consistent) (hone : OneUser s.member)
    (hid : id ≠ kAooIdInvalid) (client : Int) :
    Informs [] s (s.removeClient client) id := by
  unfold Server.removeClient
  split
  next => exact .refl s id []
  next c hfind =>
    have hclient := hs.client_ne_invalid hfind
    have hlist : s.links client = c.groupUsers := by
      rw [links, hfind]
      rfl
    -- The other clients are told about each user that leaves.
    obtain ⟨h1, -, -, -, hone', hnames, hinforms⟩ := close_loop hclient
      (P := fun t => OneUser t.member ∧ KeepsNames s t ∧ (id ≠ client → Informs [] s t id))
      (fun t g v ht hg hv hvclient hP => by
        have hactive : v.active = true := decide_eq_true (hvclient ▸ hclient)
        have heffect := effect_closeGroupUser ht hg hv
        have hmember : (t.closeGroupUser (g.id, v.id)).member = _ :=
          funext fun group => funext fun user => heffect.member group user
        refine ⟨hmember ▸ hP.1.leaves leaves_removed, hP.2.1.trans heffect.names,
          fun hne => (hP.2.2 hne).trans ?_⟩
        exact informs_closeGroupUser ht hP.1 hg hv hactive hid fun heq => hne (heq ▸ hvclient))
      hs.toWellFormed (hlist ▸ hs.nodup client)
      (by rw [← hlist, Function.update_eq_self]; exact hs.linked)
      ⟨hone, (Informs.refl s id []).names, fun _ => .refl s id []⟩
    generalize c.groupUsers.foldl closeGroupUser s = t at h1 hone' hnames hinforms
    refine ⟨hnames.trans (keepsNames_of_find (Int.le_refl _) (Int.le_refl _)
      fun _ g hg => ⟨g, hg, rfl⟩), fun _ => hone', fun e' he' => ?_⟩
    rw [findClient, h1.clients.lookup_remove] at he'
    split at he'
    next => cases he'
    next hne => exact (hinforms hne).told e' he'

end Server

end Aoo.Net
