import Mathlib.Data.List.Perm.Basic
import Aoo.Lib.Run
import Aoo.Net.Network

/-!
# Clients and server agree

The invariant of the whole system (`Network.Inv`): the records of the server agree, no client
has two users in a group, and each client will know its groups (`Knows`). A step preserves it if
the join that is carried out, if any, creates its user and leaves the client with one user
in the group.

The server does not check this. A client may send a second join for a group before it has the
reply to the first (`two_joins`), and several clients can join as the same persistent user, which
never gets a client. So the result of this module is about runs in which this does not
happen.
-/

namespace Aoo.Net

open Lib

namespace Network

/-- The invariant of the system. -/
structure Inv (N : Network) : Prop where
  server : N.server.Consistent
  one : Server.OneUser N.server.member
  conns : Keyed.Distinct Conn.id N.conns
  range : ∀ k ∈ N.conns, 0 ≤ k.id ∧ k.id < N.server.nextClientId
  takenRange : ∀ x ∈ N.taken, x.1 < N.server.nextClientId
  known : ∀ x ∈ N.taken, ∀ r, x.2.2 = .groupJoin r → N.server.Known r.groupId r.groupName
  knows : ∀ k ∈ N.conns, Knows N.server k (k.awaited N.taken)

variable {N : Network}

theorem Inv.id_ne_invalid (h : N.Inv) {k : Conn} (hk : k ∈ N.conns) : k.id ≠ kAooIdInvalid := by
  have hrange := (h.range k hk).1
  exact fun heq => absurd (heq ▸ hrange) (by decide)

/-- A step without a new connection. -/
theorem Inv.next (h : N.Inv) {N' : Network} (hserver : N'.server.Consistent)
    (hnames : Server.KeepsNames N.server N'.server) (hone : Server.OneUser N'.server.member)
    (hids : N'.conns.map Conn.id = N.conns.map Conn.id)
    (htaken : ∀ x ∈ N'.taken, x ∈ N.taken ∨ (x.1 < N.server.nextClientId ∧
      ∀ r, x.2.2 = .groupJoin r → N.server.Known r.groupId r.groupName))
    (hknows : ∀ k ∈ N'.conns, Knows N'.server k (k.awaited N'.taken)) : N'.Inv := by
  refine ⟨hserver, hone, ?_, fun k hk => ?_, fun x hx => ?_, fun x hx r hr => ?_, hknows⟩
  · rw [Keyed.Distinct, hids]
    exact h.conns
  · have hmem : k.id ∈ N.conns.map Conn.id := hids ▸ List.mem_map_of_mem hk
    obtain ⟨k₀, hk₀, heq⟩ := List.mem_map.mp hmem
    rw [← heq]
    exact ⟨(h.range k₀ hk₀).1, Int.lt_of_lt_of_le (h.range k₀ hk₀).2 hnames.nextClient⟩
  · rcases htaken x hx with hold | ⟨hrange, -⟩
    · exact Int.lt_of_lt_of_le (h.takenRange x hold) hnames.nextClient
    · exact Int.lt_of_lt_of_le hrange hnames.nextClient
  · rcases htaken x hx with hold | ⟨-, hknown⟩
    · exact (h.known x hold r hr).keeps hnames
    · exact (hknown r hr).keeps hnames

/-- A connection changes. -/
theorem Inv.modifyConn (h : N.Inv) {id : Int} {f : Conn → Conn} (hf : ∀ k, (f k).id = k.id)
    (hknows : ∀ k ∈ N.conns, k.id = id → Knows N.server (f k) ((f k).awaited N.taken)) :
    (N.modifyConn id f).Inv := by
  refine h.next h.server (Server.Informs.refl N.server 0 []).names h.one
    (Keyed.map_adjust fun k _ _ => hf k) (fun x hx => .inl hx) fun k hk => ?_
  rcases Keyed.mem_adjust.mp hk with ⟨hk, -⟩ | ⟨k₀, hk₀, hid, rfl⟩
  · exact h.knows k hk
  · exact hknows k₀ hk₀ hid

theorem Inv.perform (h : N.Inv) (id : Int) (cmd : Command) :
    (N.modifyConn id fun k => performCommand k cmd).Inv := by
  refine h.modifyConn (fun k => ?_) fun k hk _ => ?_
  · unfold performCommand
    split <;> rfl
  · unfold performCommand
    split
    next =>
      refine (h.knows k hk).send cmd ?_ _
      have hmessage : (cmd.message k.client.nextToken).awaited =
          [(k.client.nextToken, (· = cmd))] := by
        cases cmd <;> rfl
      have happend : (k.requests ++ [cmd.message k.client.nextToken]).flatMap
          Server.ServerMessage.awaited = k.requests.flatMap Server.ServerMessage.awaited ++
            [(k.client.nextToken, (· = cmd))] := by
        rw [List.flatMap_append, List.flatMap_singleton, hmessage]
      unfold Conn.awaited
      rw [happend, List.append_assoc]
      exact List.perm_middle
    next => exact h.knows k hk

theorem Inv.close (h : N.Inv) (id : Int) :
    (N.modifyConn id fun k => { k with client := k.client.close }).Inv :=
  h.modifyConn (fun _ => rfl) fun k hk _ => (h.knows k hk).close

theorem Inv.deliver (h : N.Inv) {k : Conn} (hk : k ∈ N.conns) {e : ClientEndpoint}
    (he : N.server.findClient k.id = some e) {m : ClientMessage} {rest : List ClientMessage}
    (hstream : e.stream = m :: rest) : (N.deliverMessage k m rest).Inv := by
  have hupdate := Server.updates_stream N.server k.id rest
  have heffect := hupdate.effect h.server.toWellFormed
  have hmember : (N.server.modifyClient k.id fun e => { e with stream := rest }).member =
      N.server.member := funext fun g => funext fun v => heffect.member g v
  refine h.next ?_ heffect.names (hmember ▸ h.one) (Keyed.map_adjust fun k _ _ => rfl)
    (fun x hx => .inl hx) fun k' hk' => ?_
  · refine h.server.of_eq heffect (fun id c => ?_) fun hlinked => hlinked
    split <;> rfl
  · rcases Keyed.mem_adjust.mp hk' with ⟨hk', hne⟩ | ⟨k₀, hk₀, hid, rfl⟩
    · refine (h.knows k' hk').of_eq ?_ hmember
      change (N.server.modifyClient k.id fun e => { e with stream := rest }).findClient k'.id = _
      rw [hupdate.find]
      simp [hne]
    · obtain rfl := h.conns.eq hk₀ hk hid
      exact (h.knows k₀ hk₀).deliver he hstream

/-- A new client has no users, and is not told anything. -/
theorem Inv.connect (h : N.Inv) (token : Int) (version pwd : String) (metadata : Option AooData)
    (addresses : List IpAddress) :
    (N.step (.connect token version pwd metadata addresses)).Inv := by
  have hfresh : ∀ c ∈ N.server.clients, c.id ≠ N.server.nextClientId := by
    intro c hc heq
    have hrange := (h.server.clientRange _ (List.mem_map_of_mem hc)).2
    omega
  have hnext := h.server.nextClient
  have hfind : ∀ id, N.server.acceptClient.findClient id =
      if id = N.server.nextClientId then some { id := N.server.nextClientId }
      else N.server.findClient id :=
    Keyed.lookup_append (x := ({ id := N.server.nextClientId } : ClientEndpoint)) hfresh
  have hold : ∀ k ∈ N.conns, k.id ≠ N.server.nextClientId := by
    intro k hk heq
    have hrange := (h.range k hk).2
    omega
  refine ⟨h.server.acceptClient, h.one, h.conns.append hold, fun k hk => ?_, fun x hx => ?_,
    h.known, fun k hk => ?_⟩
  · change 0 ≤ k.id ∧ k.id < N.server.nextClientId + 1
    rcases List.mem_append.mp hk with hk | hk
    · have hrange := h.range k hk
      omega
    · rw [List.mem_singleton.mp hk]
      change 0 ≤ N.server.nextClientId ∧ N.server.nextClientId < N.server.nextClientId + 1
      omega
  · exact Int.lt_trans (h.takenRange x hx) (Int.lt_add_one_iff.mpr (Int.le_refl _))
  · rcases List.mem_append.mp hk with hk | hk
    · refine (h.knows k hk).of_eq ?_ rfl
      rw [show (N.step (.connect token version pwd metadata addresses)).server.findClient k.id = _ from
        hfind k.id, if_neg (hold k hk)]
    · rw [List.mem_singleton] at hk
      subst hk
      -- Nothing is taken over for a client that has just come.
      have hnone : (N.taken.filter fun x => x.1 = N.server.nextClientId) = [] := by
        refine List.filter_eq_nil_iff.mpr fun x hx heq => ?_
        have hrange := h.takenRange x hx
        have hid := of_decide_eq_true heq
        omega
      have hawaited : (newConn N.server.nextClientId token version pwd metadata addresses).awaited
          N.taken = [] := by
        rw [Conn.awaited, newConn, hnone]
        rfl
      have hclient : (N.step (.connect token version pwd metadata addresses)).server.findClient
          N.server.nextClientId = some { id := N.server.nextClientId } :=
        (hfind _).trans (if_pos rfl)
      have hinvalid : N.server.nextClientId ≠ kAooIdInvalid :=
        fun heq => absurd (heq ▸ hnext) (by decide)
      have hno : ∀ n group user, ¬ Owns N.server.member N.server.nextClientId n group user := by
        rintro n group user ⟨v, hv, hvclient⟩
        have hlisted := (h.server.linked _ hinvalid group user).mpr ⟨n, v, hv, hvclient⟩
        have hfound : N.server.findClient N.server.nextClientId = none :=
          Keyed.lookup_eq_none.mpr hfresh
        rw [Server.links, hfound] at hlisted
        cases hlisted
      rw [show (N.step (.connect token version pwd metadata addresses)).taken = N.taken from rfl,
        hawaited]
      refine ⟨List.nodup_nil, fun _ hx => absurd hx List.not_mem_nil,
        fun _ hx => absurd hx List.not_mem_nil, fun e he m hm => ?_, fun e he _ => ?_⟩
      · rw [show (newConn N.server.nextClientId token version pwd metadata addresses).id =
          N.server.nextClientId from rfl, hclient] at he
        injection he with he
        rw [← he] at hm
        exact absurd hm List.not_mem_nil
      · rw [show (newConn N.server.nextClientId token version pwd metadata addresses).id =
          N.server.nextClientId from rfl, hclient] at he
        injection he with he
        rw [← he]
        refine ⟨⟨fun n group user => ?_, List.nodup_nil, fun group user => ?_, List.nodup_nil⟩,
          fun _ hx => absurd hx List.not_mem_nil⟩
        · refine iff_of_false (hno n group user) ?_
          rintro ⟨w, hw, _⟩
          exact absurd hw List.not_mem_nil
        · refine iff_of_false (by exact List.not_mem_nil) ?_
          rintro ⟨⟨w, hw, _⟩, _⟩
          exact absurd hw List.not_mem_nil

/-- The user of the server does something, or a connection is lost. -/
theorem Inv.call (h : N.Inv) {a : Server.Action} (ha : a.isCall) :
    ({ N with server := N.server.step a } : Network).Inv := by
  have hC : a.CreatesUsers N.server := by
    intro j hj
    cases a with
    | acceptClient | handleMessage | handleRequest => cases ha
    | removeClient | addGroup | removeGroup | addUserToGroup | removeUserFromGroup | updateGroup
    | updateUser => cases hj
  have hinforms : ∀ id, id ≠ kAooIdInvalid → Server.Informs [] N.server (N.server.step a) id :=
    fun id hid => Server.informs_call h.server h.one hid ha
  have hsome := hinforms 0 (by decide)
  refine h.next (h.server.step a hC) hsome.names (hsome.one h.one) rfl (fun x hx => .inl hx)
    fun k hk => ?_
  exact (h.knows k hk).informs (hinforms k.id (h.id_ne_invalid hk)) _ (List.Perm.refl _)
    (fun _ _ _ hx => absurd hx List.not_mem_nil) fun _ hawaits => hawaits

/-- A join in a message that is carried out is in a request. -/
theorem request_of_join {s : Server} {client id : Int} {m : Server.ServerMessage}
    {r : Server.GroupJoinRequest}
    (h : Server.Action.join s (.handleMessage client m false) = some (id, r)) :
    ∃ token, s.request client m = some (token, .groupJoin r) := by
  rw [Server.Action.join] at h
  split at h
  next c r' hc hcheck =>
    split at h
    next hactive =>
      injection h with h
      obtain ⟨-, rfl⟩ := Prod.mk.inj h
      obtain ⟨token, q, rfl, -⟩ := Server.groupJoin_of_checkRequest hcheck
      refine ⟨token, ?_⟩
      have hopen : ¬ (RequestType.groupJoin ≠ .login ∧ (!c.active) = true) := by simp [hactive]
      unfold Server.request
      rw [hc]
      simp only [Server.ServerMessage.request?, if_neg hopen]
      rw [show s.noteAddresses client (.groupJoin token q) = s from rfl, hcheck]
    next => cases h
  next => cases h

theorem createsUsers_handleMessage {s : Server} {client : Int} {m : Server.ServerMessage}
    {taken : Bool} (hjoin : taken = false → ∀ token r,
      s.request client m = some (token, .groupJoin r) → s.CreatesUser r) :
    Server.Action.CreatesUsers s (.handleMessage client m taken) := by
  intro j hj
  cases taken with
  | true => cases hj
  | false =>
    obtain ⟨id, r⟩ := j
    obtain ⟨token, hrequest⟩ := request_of_join hj
    exact hjoin rfl token r hrequest

/-- The requests of another client do not matter. -/
theorem awaited_append_of_ne {k : Conn} {x : Int × Int × Server.Request} (hne : x.1 ≠ k.id)
    (taken : List (Int × Int × Server.Request)) : k.awaited (taken ++ [x]) = k.awaited taken := by
  have hnot : ([x].filter fun x => x.1 = k.id) = [] := by simp [hne]
  rw [Conn.awaited, Conn.awaited, List.filter_append, hnot, List.append_nil]

/-- **The server reads a request.** -/
theorem Inv.receive (h : N.Inv) {k : Conn} (hk : k ∈ N.conns) {m : Server.ServerMessage}
    {rest : List Server.ServerMessage} (hrequests : k.requests = m :: rest) (taken : Bool)
    (hjoin : taken = false → ∀ token r, N.server.request k.id m = some (token, .groupJoin r) →
      N.server.CreatesUser r ∧ Server.OneUser (N.server.handleMessage k.id m taken).member) :
    (N.receiveRequest k m rest taken).Inv := by
  have hserver : (N.server.handleMessage k.id m taken).Consistent :=
    h.server.handleMessage k.id m taken (createsUsers_handleMessage fun htaken token r hr =>
      (hjoin htaken token r hr).1)
  have hbefore : k.awaited N.taken = m.awaited ++ (rest.flatMap Server.ServerMessage.awaited ++
      (N.taken.filter fun x => x.1 = k.id).flatMap fun x => x.2.2.awaited x.2.1) := by
    rw [Conn.awaited, hrequests, List.flatMap_cons, List.append_assoc]
  by_cases hover : taken = true ∧ (N.server.request k.id m).isSome
  · -- The request is taken over, and still awaited.
    obtain ⟨rfl, hsome⟩ := hover
    have hinforms : ∀ id, Server.Informs [] N.server (N.server.handleMessage k.id m true) id :=
      fun id => Server.informs_taken h.server hsome
    rcases Server.handleMessage_cases N.server k.id m true with ⟨hnone, -⟩ |
      ⟨c, type, token, q, hc, hm, hrequest, -, hcheck, -⟩
    · rw [hnone] at hsome
      cases hsome
    have hwf := (h.server.noteAddresses k.id m).toWellFormed
    obtain ⟨-, htokens, hawaits⟩ := Server.awaits_checkRequest hwf hm hcheck
    have htaken : (N.receiveRequest k m rest true).taken = N.taken ++ [(k.id, token, q)] := by
      rw [receiveRequest, hrequest]
      rfl
    refine h.next hserver (hinforms 0).names ((hinforms 0).one h.one)
      (Keyed.map_adjust fun _ _ _ => rfl) (fun x hx => ?_) fun k' hk' => ?_
    · rw [htaken] at hx
      rcases List.mem_append.mp hx with hx | hx
      · exact .inl hx
      · rw [List.mem_singleton.mp hx]
        refine .inr ⟨(h.range k hk).2, fun r hr => ?_⟩
        subst hr
        obtain ⟨token', q', rfl, hcheck'⟩ := Server.groupJoin_of_checkRequest hcheck
        exact (Server.checkGroupJoin_ok h.server.toWellFormed hcheck').2.1
    · rw [htaken]
      rcases Keyed.mem_adjust.mp hk' with ⟨hk', hne⟩ | ⟨k₀, hk₀, hid, rfl⟩
      · rw [awaited_append_of_ne (x := (k.id, token, q)) (fun heq => hne heq.symm)]
        exact (h.knows k' hk').informs (hinforms k'.id) _ (List.Perm.refl _)
          (fun _ _ _ hx => absurd hx List.not_mem_nil) fun _ hawaits => hawaits
      · obtain rfl := h.conns.eq hk₀ hk hid
        have hafter : ({ k₀ with requests := rest } : Conn).awaited
            (N.taken ++ [(k₀.id, token, q)]) =
            (rest.flatMap Server.ServerMessage.awaited ++
              (N.taken.filter fun x => x.1 = k₀.id).flatMap fun x => x.2.2.awaited x.2.1) ++
            q.awaited token := by
          rw [Conn.awaited, List.filter_append, List.flatMap_append, ← List.append_assoc]
          simp
        have hknows := h.knows k₀ hk₀
        rw [hbefore] at hknows
        rw [hafter]
        generalize rest.flatMap Server.ServerMessage.awaited ++
          (N.taken.filter fun x => x.1 = k₀.id).flatMap (fun x => x.2.2.awaited x.2.1) = zs at hknows ⊢
        have hfinal := hknows.informs (hinforms k₀.id) (zs ++ q.awaited token) ?_
          (fun _ _ _ hx => absurd hx List.not_mem_nil) fun c hc x hx => ?_
        · exact ⟨hfinal.tokens, hfinal.bound, hfinal.pending, hfinal.stream, hfinal.view⟩
        · rw [List.map_nil, List.nil_append, List.map_append, List.map_append, htokens]
          exact List.perm_append_comm
        · rcases List.mem_append.mp hx with hx | hx
          · exact hc x (List.mem_append_right _ hx)
          · exact hawaits c (fun y hy => hc y (List.mem_append_left _ hy)) x hx
  · -- The request is answered, or never will be.
    have htaken : (N.receiveRequest k m rest taken).taken = N.taken := by
      rw [receiveRequest]
      cases taken with
      | false => exact List.append_nil _
      | true =>
        cases hrequest : N.server.request k.id m with
        | none => exact List.append_nil _
        | some x => exact absurd ⟨rfl, by rw [hrequest]; rfl⟩ hover
    have hopen : taken = false ∨ N.server.request k.id m = none := by
      cases taken with
      | false => exact .inl rfl
      | true =>
        refine .inr (Option.not_isSome_iff_eq_none.mp fun hsome => hover ⟨rfl, hsome⟩)
    have hjoin' : ∀ token r, N.server.request k.id m = some (token, .groupJoin r) →
        N.server.CreatesUser r ∧ Server.OneUser (N.server.handleMessage k.id m taken).member := by
      intro token r hr
      rcases hopen with hfalse | hnone
      · exact hjoin hfalse token r hr
      · rw [hnone] at hr
        cases hr
    have hinforms : ∀ id, id ≠ kAooIdInvalid → ∀ xs, (id = k.id → xs = m.awaited) →
        Server.Informs xs N.server (N.server.handleMessage k.id m taken) id :=
      fun id hid xs hxs => Server.informs_handleMessage h.server h.one hjoin' hid hopen hxs
    have hself := hinforms k.id (h.id_ne_invalid hk) m.awaited fun _ => rfl
    refine h.next hserver hself.names (hself.one h.one) (Keyed.map_adjust fun _ _ _ => rfl)
      (fun x hx => .inl (htaken ▸ hx)) fun k' hk' => ?_
    rw [htaken]
    rcases Keyed.mem_adjust.mp hk' with ⟨hk', hne⟩ | ⟨k₀, hk₀, hid, rfl⟩
    · exact (h.knows k' hk').informs (hinforms k'.id (h.id_ne_invalid hk') [] fun heq => absurd heq hne)
        _ (List.Perm.refl _) (fun _ _ _ hx => absurd hx List.not_mem_nil) fun _ hawaits => hawaits
    · obtain rfl := h.conns.eq hk₀ hk hid
      have hknows := h.knows k₀ hk₀
      rw [hbefore] at hknows
      have hfinal := hknows.informs hself (({ k₀ with requests := rest } : Conn).awaited N.taken)
        ?_ (fun c hc x hx => hc x (List.mem_append_left _ hx))
        fun c hc x hx => hc x (List.mem_append_right _ hx)
      · exact ⟨hfinal.tokens, hfinal.bound, hfinal.pending, hfinal.stream, hfinal.view⟩
      · rw [← List.map_append]
        exact List.Perm.refl _

/-- The request that is answered is no longer awaited. -/
theorem awaited_eraseIdx (k : Conn) {taken : List (Int × Int × Server.Request)} {i : Nat}
    {x : Int × Int × Server.Request} (hx : taken[i]? = some x) :
    ((if k.id = x.1 then x.2.2.awaited x.2.1 else []) ++ k.awaited (taken.eraseIdx i)).Perm
      (k.awaited taken) := by
  obtain ⟨hi, rfl⟩ := List.getElem?_eq_some_iff.mp hx
  have hperm := (List.getElem_cons_eraseIdx_perm hi).symm
  have hfilter := (hperm.filter fun x => decide (x.1 = k.id)).flatMap_right
    fun x => x.2.2.awaited x.2.1
  unfold Conn.awaited
  refine List.Perm.trans ?_ (hfilter.append_left _).symm
  by_cases heq : k.id = taken[i].1
  · rw [if_pos heq, List.filter_cons_of_pos (by simp [heq]), List.flatMap_cons]
    exact List.perm_append_comm_assoc ..
  · rw [if_neg heq, List.filter_cons_of_neg (by simpa using fun h => heq h.symm)]
    exact List.Perm.refl _

/-- **The user of the server answers a request** that was taken over. -/
theorem Inv.handleRequest (h : N.Inv) {i : Nat} {id token : Int} {q : Server.Request}
    (hi : N.taken[i]? = some (id, token, q))
    {result : Except (AooError × Option (Int × String)) Server.Response}
    (hjoin : ∀ r, q = .groupJoin r → (N.server.findClient id).isSome → (∃ a, result = .ok a) →
      N.server.CreatesUser r ∧
        Server.OneUser (N.server.handleRequest id token q result).member) :
    ({ N with
      server := N.server.handleRequest id token q result
      taken := N.taken.eraseIdx i } : Network).Inv := by
  have hmem := List.mem_of_getElem? hi
  have hserver : (N.server.handleRequest id token q result).Consistent := by
    refine h.server.handleRequest id token q result fun j hj => ?_
    cases q with
    | groupJoin r =>
      cases result with
      | ok a =>
        rw [Option.mem_def, Server.Action.join] at hj
        split at hj
        next hsome =>
          injection hj with hj
          rw [← hj]
          exact (hjoin r rfl hsome ⟨a, rfl⟩).1
        next => cases hj
      | error e => cases hj
    | login | groupLeave | groupUpdate | userUpdate | custom => cases hj
  have hinforms : ∀ k, k ≠ kAooIdInvalid →
      Server.Informs (if k = id then q.awaited token else []) N.server
        (N.server.handleRequest id token q result) k := by
    intro k hk
    exact Server.informs_handleRequest h.server h.one hjoin
      (fun r hr => h.known _ hmem r hr) hk fun heq => if_pos heq
  have hsome := hinforms 0 (by decide)
  refine h.next hserver hsome.names (hsome.one h.one) rfl
    (fun x hx => .inl (List.mem_of_mem_eraseIdx hx)) fun k hk => ?_
  have hperm := awaited_eraseIdx k hi
  refine (h.knows k hk).informs (hinforms k.id (h.id_ne_invalid hk)) _ ?_ (fun c hc x hx => ?_)
    fun c hc x hx => ?_
  · rw [← List.map_append]
    exact hperm.map Prod.fst
  · exact hc x (hperm.subset (List.mem_append_left _ hx))
  · exact hc x (hperm.subset (List.mem_append_right _ hx))

/-! ## Runs -/

/-- The join in a request. -/
def joinOf (id : Int) : Option (Int × Server.Request) → Option (Int × Server.GroupJoinRequest)
  | some (_, .groupJoin r) => some (id, r)
  | _ => none

/-- The join that an action carries out, and for which client. -/
def Action.join (N : Network) : Action → Option (Int × Server.GroupJoinRequest)
  | .receive id false =>
    ((Keyed.lookup Conn.id id N.conns).bind fun k => k.requests.head?).bind fun m =>
      joinOf id (N.server.request id m)
  | .handleRequest i (.ok _) =>
    (N.taken[i]?).bind fun x =>
      if (N.server.findClient x.1).isSome then joinOf x.1 (some x.2) else none
  | _ => none

/-- **A step preserves the invariant**, if the join that it carries out creates its user, and
the client has one user in the group then. -/
theorem Inv.step (h : N.Inv) (a : Action)
    (hjoin : ∀ j ∈ a.join N, N.server.CreatesUser j.2 ∧ Server.OneUser (N.step a).server.member) :
    (N.step a).Inv := by
  cases a with
  | connect token version pwd metadata addresses => exact h.connect token version pwd metadata addresses
  | perform id cmd => exact h.perform id cmd
  | close id => exact h.close id
  | call a =>
    rw [Network.step]
    split
    next ha => exact h.call ha
    next => exact h
  | deliver id =>
    rw [Network.step]
    split
    next k e hk he =>
      obtain rfl : k.id = id := Keyed.key_of_lookup hk
      split
      next => exact h
      next m rest hstream => exact h.deliver (Keyed.mem_of_lookup hk) he hstream
    next => exact h
  | receive id taken =>
    revert hjoin
    rw [Network.step]
    split
    next => exact fun _ => h
    next k hk =>
      obtain rfl : k.id = id := Keyed.key_of_lookup hk
      split
      next => exact fun _ => h
      next m rest hrequests =>
        intro hjoin
        refine h.receive (Keyed.mem_of_lookup hk) hrequests taken fun htaken token r hr => ?_
        subst htaken
        refine hjoin (k.id, r) ?_
        rw [Action.join, hk, Option.bind_some, hrequests, List.head?_cons, Option.bind_some, hr]
        rfl
  | handleRequest i result =>
    revert hjoin
    rw [Network.step]
    split
    next => exact fun _ => h
    next id token q hi =>
      intro hjoin
      refine h.handleRequest hi fun r hr hsome hok => ?_
      obtain ⟨a, rfl⟩ := hok
      subst hr
      refine hjoin (id, r) ?_
      rw [Action.join, hi, Option.bind_some, if_pos hsome]
      rfl

/-- The condition for a step: a join that is carried out is allowed. -/
def Action.JoinsAllowed (N : Network) (a : Action) : Prop :=
  ∀ j ∈ a.join N, N.server.JoinAllowed j.1 j.2

instance (N : Network) (a : Action) : Decidable (a.JoinsAllowed N) :=
  inferInstanceAs (Decidable (∀ j ∈ a.join N, N.server.JoinAllowed j.1 j.2))

theorem join_eq_some {id id' : Int} {x : Option (Int × Server.Request)} {r : Server.GroupJoinRequest}
    (h : joinOf id x = some (id', r)) : id' = id ∧ ∃ token, x = some (token, .groupJoin r) := by
  unfold joinOf at h
  split at h
  next token r' =>
    injection h with h
    obtain ⟨rfl, rfl⟩ := Prod.mk.inj h
    exact ⟨rfl, token, rfl⟩
  next => cases h

/-- An allowed join leaves each client with one user. -/
theorem Inv.oneUser_step (h : N.Inv) {a : Action} (ha : a.JoinsAllowed N)
    {j : Int × Server.GroupJoinRequest} (hj : j ∈ a.join N) :
    Server.OneUser (N.step a).server.member := by
  have hallowed := ha j hj
  obtain ⟨id', r⟩ := j
  unfold Action.join at hj
  split at hj
  next id =>
    obtain ⟨m, hm, hjoin⟩ := Option.bind_eq_some_iff.mp hj
    obtain ⟨k, hk, hhead⟩ := Option.bind_eq_some_iff.mp hm
    obtain ⟨rfl, token, hrequest⟩ := join_eq_some hjoin
    obtain ⟨rest, hrequests⟩ := List.head?_eq_some_iff.mp hhead
    obtain rfl : k.id = id' := Keyed.key_of_lookup hk
    rw [Network.step, hk]
    simp only [hrequests]
    exact Server.oneUser_handleMessage h.server h.one hrequest hallowed
  next i answer =>
    obtain ⟨⟨id, token, q⟩, hi, hjoin⟩ := Option.bind_eq_some_iff.mp hj
    split at hjoin
    next =>
      obtain ⟨rfl, token', heq⟩ := join_eq_some hjoin
      injection heq with heq
      obtain ⟨rfl, rfl⟩ := Prod.mk.inj heq
      rw [Network.step, hi]
      exact Server.oneUser_handleRequest h.server h.one hallowed answer
    next => cases hjoin
  next => cases hj

theorem Inv.step_allowed (h : N.Inv) (a : Action) (ha : a.JoinsAllowed N) : (N.step a).Inv :=
  h.step a fun j hj => ⟨(ha j hj).createsUser, h.oneUser_step ha hj⟩

/-- A server that has been set up, and nobody is connected. -/
structure Fresh (N : Network) : Prop where
  server : N.server.Fresh
  conns : N.conns = []
  taken : N.taken = []

theorem Fresh.inv (h : N.Fresh) : N.Inv := by
  have hmember : ∀ group user, N.server.member group user = none := by
    intro group user
    rw [Server.member, Server.findGroup, h.server.groups]
    rfl
  refine ⟨h.server.consistent, ?_, ?_, ?_, ?_, ?_, ?_⟩
  · intro id _ group n user n' user' hown
    obtain ⟨v, hv, -⟩ := hown
    rw [hmember] at hv
    cases hv
  · rw [Keyed.Distinct, h.conns]
    exact List.nodup_nil
  · simp [h.conns]
  · simp [h.taken]
  · simp [h.taken]
  · simp [h.conns]

/-! ## One user and one client -/

/-- A client has at most one user in a group, a user is on the list of at most one client,
and a client that has read everything believes what the server has recorded for it. -/
structure OneToOne (N : Network) : Prop where
  user : ∀ e ∈ N.server.clients, ∀ group user user', (group, user) ∈ e.groupUsers →
    (group, user') ∈ e.groupUsers → user = user'
  owner : ∀ g ∈ N.server.groups, ∀ u ∈ g.users, ∀ v ∈ g.users, u.active = true →
    u.client = v.client → u = v
  client : ∀ e ∈ N.server.clients, ∀ e' ∈ N.server.clients, ∀ gu, gu ∈ e.groupUsers →
    gu ∈ e'.groupUsers → e = e'
  believes : ∀ k ∈ N.conns, ∀ e ∈ N.server.clients, e.id = k.id → e.stream = [] →
    k.client.state ≠ .disconnected → ∀ group user,
      (∃ w ∈ k.client.groups, w.groupId = group ∧ w.userId = user) ↔ (group, user) ∈ e.groupUsers

/-- The list of a client says which users it has. -/
theorem Inv.listed (h : N.Inv) {e : ClientEndpoint} (he : e ∈ N.server.clients)
    (group user : Int) : (group, user) ∈ e.groupUsers ↔
      ∃ n, Owns N.server.member e.id n group user := by
  have hfind := h.server.clients.lookup he
  have hlinks : N.server.links e.id = e.groupUsers := by
    rw [Server.links, Server.findClient, hfind]
    rfl
  rw [← hlinks]
  exact h.server.linked e.id (h.server.client_ne_invalid hfind) group user

/-- A client that has read everything knows its groups. -/
theorem Inv.view (h : N.Inv) {k : Conn} (hk : k ∈ N.conns) {e : ClientEndpoint}
    (he : N.server.findClient k.id = some e) (hstream : e.stream = [])
    (hopen : k.client.state ≠ .disconnected) : Client.View N.server.member k.id k.client := by
  have hview := (h.knows k hk).view e he
  rw [hstream] at hview
  exact (hview hopen).1

theorem Inv.oneToOne (h : N.Inv) : N.OneToOne := by
  refine ⟨fun e he group user user' hu hu' => ?_, fun g hg u hu v hv hactive hclient => ?_,
    fun e he e' he' gu hgu hgu' => ?_, fun k hk e he hid hstream hopen group user => ?_⟩
  · obtain ⟨n, hn⟩ := (h.listed he group user).mp hu
    obtain ⟨n', hn'⟩ := (h.listed he group user').mp hu'
    exact h.one e.id (h.server.client_ne_invalid (h.server.clients.lookup he)) group n user n' user'
      hn hn'
  · exact h.one.eq h.server.toWellFormed (h.server.groups.lookup hg) (of_decide_eq_true hactive) hu hv
      rfl hclient.symm
  · obtain ⟨group, user⟩ := gu
    obtain ⟨n, u, hu, hclient⟩ := (h.listed he group user).mp hgu
    obtain ⟨n', u', hu', hclient'⟩ := (h.listed he' group user).mp hgu'
    rw [hu] at hu'
    injection hu' with hu'
    rw [← (Prod.mk.inj hu').2, hclient] at hclient'
    exact h.server.clients.eq he he' hclient'
  · have hfind : N.server.findClient k.id = some e := hid ▸ h.server.clients.lookup he
    have hview := h.view hk hfind hstream hopen
    rw [h.listed he, hid]
    constructor
    · intro ⟨w, hw, hgroup, huser⟩
      exact ⟨w.groupName, hgroup ▸ huser ▸ hview.owns hw⟩
    · intro ⟨n, hown⟩
      obtain ⟨w, hw, -, hgroup, huser⟩ := (hview.groups n group user).mp hown
      exact ⟨w, hw, hgroup, huser⟩

/-- **One user for each client, and one client for each user**, in every state of a run in which
each join that is carried out is allowed, and in which fewer than 2^31 ids and tokens are drawn,
as these are unbounded here. -/
theorem one_user_one_client (N : Network) (hN : N.Fresh) (as : List Action)
    (has : StepsAll Network.step Action.JoinsAllowed N as) :
    ∀ bs, bs <+: as → (bs.foldl Network.step N).OneToOne := by
  intro bs hbs
  have hrun := StepsAll.invariant (I := Inv) (fun _ a h ha => h.step_allowed a ha) hN.inv has
  exact (hrun bs hbs).oneToOne

/-- A client connects; the server reads its login, and it reads the reply. -/
def connected (id : Int) : List Action :=
  [.connect 0 "2.0" "" none [], .receive id false, .deliver id]

/-- A join request for a group and a user. -/
def joinCommand (group user : String) : Command :=
  .groupJoin { groupName := group, groupPwd := none, groupMetadata := none, userName := user
               userPwd := none, userMetadata := none, relay := none }

/-- Two clients join a group and read what they are told. -/
def visit : List Action :=
  connected 0 ++ connected 1 ++
    [.perform 0 (joinCommand "a" "x"), .perform 1 (joinCommand "a" "y"), .receive 0 false,
      .receive 1 false, .deliver 0, .deliver 0, .deliver 1, .deliver 1]

theorem visit_one_to_one :
    ((visit.foldl Network.step {}).server.clients.map (·.groupUsers) = [[(0, 0)], [(0, 1)]]) ∧
      (visit.foldl Network.step {}).OneToOne := by
  refine ⟨by decide +kernel, ?_⟩
  have hfresh : ({} : Network).Fresh := ⟨⟨rfl, rfl, by decide, by decide⟩, rfl, rfl⟩
  have hallowed : StepsAll Network.step (fun N a => Action.JoinsAllowed N a) {} visit := by
    decide +kernel
  exact one_user_one_client {} hfresh visit hallowed visit (List.prefix_refl _)

/-- A client sends two joins for one group before it has the reply to the first. -/
def twoJoins : List Action :=
  connected 0 ++ [.perform 0 (joinCommand "a" "x"), .perform 0 (joinCommand "a" "y"),
    .receive 0 false, .receive 0 false, .deliver 0, .deliver 0, .deliver 0, .deliver 0]

/-- The client has two users in the group then, and knows about one of them. -/
theorem two_joins :
    (twoJoins.foldl Network.step {}).server.clients.map (·.groupUsers) = [[(0, 0), (0, 1)]] ∧
      (twoJoins.foldl Network.step {}).server.clients.map (·.stream) = [[]] ∧
      ((twoJoins.foldl Network.step {}).conns.map fun k =>
        k.client.groups.map fun w => (w.groupId, w.userId)) = [[(0, 0)]] ∧
      ¬ (twoJoins.foldl Network.step {}).OneToOne := by
  have hclients : (twoJoins.foldl Network.step {}).server.clients.map (·.groupUsers) =
      [[(0, 0), (0, 1)]] := by decide +kernel
  refine ⟨hclients, by decide +kernel, by decide +kernel, fun h => ?_⟩
  generalize twoJoins.foldl Network.step {} = N at hclients h
  obtain ⟨e, he, hlist⟩ : ∃ e ∈ N.server.clients, e.groupUsers = [(0, 0), (0, 1)] :=
    List.mem_map.mp (by rw [hclients]; exact List.mem_singleton.mpr rfl)
  have hsame : (0 : Int) = 1 := h.user e he 0 0 1 (by rw [hlist]; decide) (by rw [hlist]; decide)
  exact absurd hsame (by decide)

end Network

end Aoo.Net
