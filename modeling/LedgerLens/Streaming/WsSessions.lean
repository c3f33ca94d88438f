import LedgerLens.Library.Runs
import LedgerLens.Streaming.WsServer

/-!
# Connections of the same client

Several connections may carry tokens of one subject. What the server keeps for a connection
it keeps under the subject: the registration with the expiry of the token and the queue, and
the subscriptions. A later connection takes the place of an earlier one, and whoever cleans up
removes what is there, whose ever it is. So a connection keeps what is its own exactly as long
as no other connection of the client does these things, and no step waits for the lock of the
clients while a refused connection holds it.
-/

namespace LedgerLens.Streaming

open JWTAuthenticator Transition

namespace WsServer

/-- The client of a connection whose handler is running, and the expiry of its token. -/
def live? (s : WsServer) (i : ℕ) : Option (String × Option ℚ) :=
  s.connections[i]?.bind fun connection =>
    if connection.phase = .running then some (connection.clientId, tokenExpiry connection.claims)
    else none

/-- A running connection has what is its own. -/
structure Served (s : WsServer) (made : List String) (i : ℕ) (clientId : String)
    (exp : Option ℚ) : Prop where
  /-- The event loop is not blocked. -/
  running : s.hung = false
  /-- The connection is registered for its client, with its queue and the expiry of its
  token. -/
  registered : s.session? clientId = some (i, exp)
  /-- The subscriptions that it has made are there. -/
  subscribed : ∀ channel ∈ made, channel ∈ s.router.getSubscriptions clientId

/-- All running connections have what is their own. -/
def Intact (s : WsServer) (made : ℕ → List String) : Prop :=
  ∀ i clientId exp, s.live? i = some (clientId, exp) → s.Served (made i) i clientId exp

/-- No connection is running. -/
def Idle (s : WsServer) : Prop := ∀ i, s.live? i = none

/-- No connection of the client is running. -/
def Vacant (s : WsServer) (clientId : String) : Prop := ∀ i exp, s.live? i ≠ some (clientId, exp)

/-- Taking the lock blocks nobody. -/
def LockFree (s : WsServer) : Prop := s.locked = true → s.Idle

/-- Whether a subscription is accepted. -/
def subscribes (s : WsServer) (i : ℕ) (channels : List String) : Bool :=
  !s.hung && (s.acting? i).any fun connection => connection.maySubscribe channels

/-- Whether the end of a subscription is accepted. -/
def unsubscribes (s : WsServer) (i : ℕ) (channels : List String) : Bool :=
  !s.hung && (s.acting? i).isSome && channels.all validateChannel

end WsServer

/-- A server with the record of the subscriptions of its connections. -/
structure SessionHistory where
  /-- The server. -/
  server : WsServer := {}
  /-- The channels to which a connection has subscribed, less those whose subscription it has
  ended. -/
  made : ℕ → List String := fun _ => []

namespace SessionHistory

variable (config : WsConfig) (auth : JWTAuthenticator)

/-- The subscriptions after a step. A new connection has made none. -/
def madeAfter (h : SessionHistory) : WsEvent → ℕ → List String
  | .connect _ _ => Function.update h.made h.server.connections.length []
  | .subscribe i channels =>
    if h.server.subscribes i channels then Function.update h.made i (h.made i ++ channels)
    else h.made
  | .unsubscribe i channels =>
    if h.server.unsubscribes i channels then
      Function.update h.made i ((h.made i).filter (· ∉ channels))
    else h.made
  | _ => h.made

/-- One step. -/
def step (h : SessionHistory) (e : WsEvent) : SessionHistory where
  server := h.server.step config auth e
  made := h.madeAfter e

/-- A publication enqueues the event for every connection that stays open and has subscribed to
one of its channels. -/
def Receives (h : SessionHistory) (e : WsEvent) : Prop :=
  ∀ event wallet assetPair, e = .publish event → event.routed? = some (wallet, assetPair) →
    ∀ i, (h.server.live? i).isSome = true → ((h.step config auth e).server.live? i).isSome = true →
      (∃ channel ∈ h.made i, channel ∈ [walletChannel wallet, pairChannel assetPair, "all"]) →
        ∃ delivery ∈ (h.step config auth e).server.deliveries, delivery.connection = i ∧
          delivery.message.event = event ∧ delivery.message.seq = h.server.seq + 1

/-- What a step is meant to leave to every connection that is not closed. -/
structure Undisturbed (h : SessionHistory) (e : WsEvent) : Prop where
  /-- Its registration, the expiry of its token, its queue and its subscriptions. -/
  intact : (h.step config auth e).server.Intact (h.step config auth e).made
  /-- The events on its channels. -/
  receives : h.Receives config auth e

/-- The condition under which a step does so. A connection is registered or cleans up only when
no other connection of its client is running; one that presents another token or ends a
subscription takes nothing from such a connection; and the lock is free when it is taken,
unless no connection is running at all. -/
def Apart (h : SessionHistory) : WsEvent → Prop
  | .connect token now =>
    ∀ claims, auth.verify token now = some claims →
      h.server.LockFree ∧ (h.server.locked = false →
        h.server.clients.rows.length < config.maxClients → h.server.Vacant claims.clientId)
  | .unsubscribe i channels =>
    h.server.unsubscribes i channels = true →
      ∀ connection, h.server.acting? i = some connection →
        ∀ j exp, h.server.live? j = some (connection.clientId, exp) → j ≠ i →
          ∀ channel ∈ h.made j, channel ∉ channels
  | .refreshToken i token now =>
    ∀ connection, h.server.acting? i = some connection →
      h.server.LockFree ∧ (h.server.locked = false →
        ∀ state, h.server.clients.find? connection.clientId = some state →
          ∀ claims, auth.verifyRefresh token connection.clientId state.tokenExp now = some claims →
            ∀ j exp, h.server.live? j = some (connection.clientId, exp) → j ≠ i →
              exp = tokenExpiry claims)
  | .checkExpiry i _ =>
    ∀ connection, h.server.acting? i = some connection → h.server.LockFree
  | .cleanup i =>
    ∀ connection, h.server.connections[i]? = some connection → connection.phase = .closing →
      connection.clientId ≠ "" →
        h.server.LockFree ∧ (h.server.locked = false → h.server.Vacant connection.clientId)
  | .publish event =>
    ∀ wallet assetPair, event.routed? = some (wallet, assetPair) →
      fanOut h.server.router event wallet assetPair (h.server.seq + 1) ≠ [] → h.server.LockFree
  | .subscribe _ _ | .replay _ _ _ | .close _ | .dequeue _ => True

end SessionHistory

section

variable {config : WsConfig} {auth : JWTAuthenticator} {s s' : WsServer} {i j : ℕ}
  {made : ℕ → List String} {clientId : String} {exp : Option ℚ} {claims : Claims}
  {entries : List (String × ScoreMessage)} {message : ScoreMessage} {event : ScoreEvent}
  {wallet assetPair : String}

namespace WsServer

/-- The running connections after a change that leaves the client, the claims and the phase of
connections alone. -/
theorem live?_updateConnection (f : Connection → Connection)
    (hf : ∀ connection, (f connection).clientId = connection.clientId ∧
      (f connection).claims = connection.claims ∧
        ((f connection).phase = .running ↔ connection.phase = .running)) :
    (s.updateConnection i f).live? j = s.live? j := by
  unfold live?
  rw [getElem?_updateConnection]
  cases s.connections[j]? with
  | none => rfl
  | some connection =>
    obtain ⟨hclient, hclaims, hphase⟩ := hf connection
    by_cases hi : i = j <;> simp [hi, hclient, hclaims, hphase]

/-- The running connections after one was closed. -/
theorem live?_close :
    (s.updateConnection i Connection.close).live? j = if i = j then none else s.live? j := by
  have hclosed (connection : Connection) : connection.close.phase ≠ .running := by
    unfold Connection.close
    split
    · next hfinished => simp [hfinished]
    · simp
  unfold live?
  rw [getElem?_updateConnection]
  by_cases hi : i = j
  · subst hi
    cases s.connections[i]? with
    | none => simp
    | some connection => simp [hclosed]
  · simp [hi]

/-- The running connections after a registration. -/
theorem live?_register :
    (s.register claims).live? j =
      if j = s.connections.length then some (claims.clientId, tokenExpiry claims)
      else s.live? j := by
  unfold live? register
  dsimp only
  obtain hlt | rfl | hgt := Nat.lt_trichotomy j s.connections.length
  · rw [List.getElem?_append_left hlt, if_neg (by omega)]
  · simp [Connection.new]
  · rw [List.getElem?_eq_none (by rw [List.length_append, List.length_singleton]; omega),
      List.getElem?_eq_none (by omega), if_neg (by omega)]

/-- The running connections after a refusal. -/
theorem live?_refuse : (s.refuse claims).live? j = s.live? j := by
  unfold live? refuse
  dsimp only
  obtain hlt | rfl | hgt := Nat.lt_trichotomy j s.connections.length
  · rw [List.getElem?_append_left hlt]
  · simp [Connection.new]
  · rw [List.getElem?_eq_none (by rw [List.length_append, List.length_singleton]; omega),
      List.getElem?_eq_none (by omega)]

/-- A running connection is one of the connections. -/
theorem lt_length_of_live? (h : s.live? i = some (clientId, exp)) : i < s.connections.length := by
  by_contra hnot
  unfold live? at h
  rw [List.getElem?_eq_none (by omega)] at h
  cases h

/-- Where no connection is running, none can lose anything. -/
theorem Idle.intact (h : s.Idle) : s.Intact made := by
  intro i clientId exp hlive
  rw [h i] at hlive
  cases hlive

/-- A blocked event loop has nothing left for anybody. -/
theorem Intact.idle (h : s.Intact made) (hhung : s.hung = true) : s.Idle := by
  intro i
  by_contra hlive
  obtain ⟨⟨clientId, exp⟩, hsome⟩ := Option.ne_none_iff_exists'.mp hlive
  have hrunning := (h i clientId exp hsome).running
  rw [hhung] at hrunning
  cases hrunning

theorem Idle.vacant (h : s.Idle) : s.Vacant clientId := by
  intro i exp hlive
  rw [h i] at hlive
  cases hlive

/-- A step that starts nothing and touches no registration and no subscription leaves to every
connection what is its own. -/
theorem Intact.frame (h : s.Intact made)
    (hlive : ∀ i client, s'.live? i = some client → s.live? i = some client)
    (hhung : s'.hung = s.hung) (hsession : ∀ clientId, s'.session? clientId = s.session? clientId)
    (hrouter : s'.router = s.router) : s'.Intact made := by
  intro i clientId exp hrunning
  obtain ⟨hs, hregistered, hsubscribed⟩ := h i clientId exp (hlive i _ hrunning)
  refine ⟨hhung.trans hs, (hsession clientId).trans hregistered, ?_⟩
  rw [hrouter]
  exact hsubscribed

/-- What does not show in registrations, subscriptions and running connections does not
matter. -/
theorem intact_congr (hlive : ∀ i, s'.live? i = s.live? i) (hhung : s'.hung = s.hung)
    (hsession : ∀ clientId, s'.session? clientId = s.session? clientId)
    (hrouter : s'.router = s.router) : s'.Intact made ↔ s.Intact made :=
  ⟨fun h => h.frame (fun i _ => (hlive i).trans) hhung.symm
      (fun clientId => (hsession clientId).symm) hrouter.symm,
    fun h => h.frame (fun i _ => (hlive i).symm.trans) hhung hsession hrouter⟩

/-- Closing a connection disturbs no other. -/
theorem Intact.close (h : s.Intact made) :
    (s.updateConnection i Connection.close).Intact made := by
  refine h.frame ?_ rfl (fun _ => rfl) rfl
  intro j client hrunning
  rw [live?_close] at hrunning
  split at hrunning
  · cases hrunning
  · exact hrunning

/-- Counting an event disturbs nobody. -/
theorem Intact.count (h : s.Intact made) : { s with seq := s.seq + 1 }.Intact made := by
  refine h.frame ?_ rfl ?_ rfl
  · exact fun _ _ hrunning => hrunning
  · exact fun _ => rfl

/-- A change of queues disturbs nobody. -/
theorem Intact.updateQueue (h : s.Intact made) (f : List Outgoing → List Outgoing) :
    (s.updateConnection i fun connection =>
      { connection with queue := f connection.queue }).Intact made := by
  refine h.frame ?_ rfl (fun _ => rfl) rfl
  intro j client hrunning
  rwa [live?_updateConnection (fun connection => { connection with queue := f connection.queue })
    fun _ => ⟨rfl, rfl, Iff.rfl⟩] at hrunning

/-- A refusal disturbs nobody. -/
theorem Intact.refuse (h : s.Intact made) : (s.refuse claims).Intact made :=
  h.frame (fun _ _ hrunning => live?_refuse.symm.trans hrunning) rfl (fun _ => rfl) rfl

/-- What a step that takes the lock leaves to the connections: everything, if nobody holds the
lock or no connection is running. -/
theorem intact_withClientsLock_iff {body : WsServer → WsServer} :
    (s.withClientsLock body).Intact made ↔
      s.LockFree ∧ (s.locked = false → (body s).Intact made) := by
  unfold withClientsLock LockFree
  cases hlocked : s.locked with
  | false => simp
  | true =>
    simp only [if_true, reduceCtorEq, false_imp_iff, and_true, true_imp_iff]
    exact ⟨fun h => h.idle rfl, fun h => Idle.intact (s := { s with hung := true }) h⟩

/-- A registration disturbs nobody if no connection of the client is running. -/
theorem Intact.register_iff (h : s.Intact made) (hhung : s.hung = false) :
    (s.register claims).Intact (Function.update made s.connections.length []) ↔
      s.Vacant claims.clientId := by
  constructor
  · intro hafter j exp hrunning
    have hlt := lt_length_of_live? hrunning
    have hstill : (s.register claims).live? j = some (claims.clientId, exp) := by
      rw [live?_register, if_neg (by omega)]
      exact hrunning
    have hregistered := (hafter j _ exp hstill).registered
    rw [session?_register, if_pos rfl, Option.some.injEq, Prod.mk.injEq] at hregistered
    omega
  · intro hvacant j clientId exp hrunning
    rw [live?_register] at hrunning
    by_cases hj : j = s.connections.length
    · rw [if_pos hj, Option.some.injEq, Prod.mk.injEq] at hrunning
      obtain ⟨rfl, rfl⟩ := hrunning
      subst hj
      exact ⟨hhung, by rw [session?_register, if_pos rfl], by simp⟩
    · rw [if_neg hj] at hrunning
      obtain ⟨hs, hregistered, hsubscribed⟩ := h j clientId exp hrunning
      have hne : clientId ≠ claims.clientId := by
        rintro rfl
        exact hvacant j exp hrunning
      refine ⟨hs, ?_, ?_⟩
      · rw [session?_register, if_neg hne]
        exact hregistered
      · rw [Function.update_of_ne hj]
        exact hsubscribed

/-- The end of a connection's subscriptions disturbs nobody if no other connection of the client
has made them. -/
theorem Intact.unsubscribe_iff (h : s.Intact made) {channels : List String}
    (hown : ∀ clientId' exp, s.live? i = some (clientId', exp) → clientId' = clientId) :
    { s with router := s.router.unsubscribe clientId channels }.Intact
        (Function.update made i ((made i).filter (· ∉ channels))) ↔
      ∀ j exp, s.live? j = some (clientId, exp) → j ≠ i →
        ∀ channel ∈ made j, channel ∉ channels := by
  constructor
  · intro hafter j exp hrunning hj channel hmade hmem
    have hsubscribed := (hafter j clientId exp hrunning).subscribed channel
      (by rwa [Function.update_of_ne hj])
    rw [PubSubRouter.mem_getSubscriptions_unsubscribe] at hsubscribed
    exact hsubscribed.2 ⟨rfl, hmem⟩
  · intro hothers j clientId' exp hrunning
    obtain ⟨hs, hregistered, hsubscribed⟩ := h j clientId' exp hrunning
    refine ⟨hs, hregistered, ?_⟩
    intro channel hmade
    rw [PubSubRouter.mem_getSubscriptions_unsubscribe]
    by_cases hj : j = i
    · subst hj
      rw [Function.update_self, List.mem_filter] at hmade
      exact ⟨hsubscribed channel hmade.1, fun hboth => of_decide_eq_true hmade.2 hboth.2⟩
    · rw [Function.update_of_ne hj] at hmade
      refine ⟨hsubscribed channel hmade, ?_⟩
      rintro ⟨rfl, hmem⟩
      exact hothers j exp hrunning hj channel hmade hmem

/-- A subscription disturbs nobody. -/
theorem Intact.subscribe (h : s.Intact made) {channels : List String}
    (hown : ∀ clientId' exp, s.live? i = some (clientId', exp) → clientId' = clientId) :
    { s with router := s.router.subscribe clientId channels }.Intact
      (Function.update made i (made i ++ channels)) := by
  intro j clientId' exp hrunning
  obtain ⟨hs, hregistered, hsubscribed⟩ := h j clientId' exp hrunning
  refine ⟨hs, hregistered, ?_⟩
  intro channel hmade
  rw [PubSubRouter.mem_getSubscriptions_subscribe]
  by_cases hj : j = i
  · subst hj
    rw [Function.update_self] at hmade
    obtain hold | hnew := List.mem_append.mp hmade
    · exact .inr (hsubscribed channel hold)
    · exact .inl ⟨hown clientId' exp hrunning, hnew⟩
  · rw [Function.update_of_ne hj] at hmade
    exact .inr (hsubscribed channel hmade)

/-- Removing a client with its subscriptions disturbs nobody if no connection of the client is
running. -/
theorem Intact.remove_iff (h : s.Intact made) (clientId : String) :
    { s with
      router := s.router.disconnect clientId
      clients := s.clients.erase clientId }.Intact made ↔ s.Vacant clientId := by
  constructor
  · intro hafter j exp hrunning
    have hregistered := (hafter j clientId exp hrunning).registered
    rw [session?_erase (s := { s with router := s.router.disconnect clientId }), if_pos rfl]
      at hregistered
    cases hregistered
  · intro hvacant j clientId' exp hrunning
    obtain ⟨hs, hregistered, hsubscribed⟩ := h j clientId' exp hrunning
    have hne : clientId' ≠ clientId := by
      rintro rfl
      exact hvacant j exp hrunning
    refine ⟨hs, ?_, ?_⟩
    · rw [session?_erase (s := { s with router := s.router.disconnect clientId }), if_neg hne]
      exact hregistered
    · intro channel hmade
      exact PubSubRouter.mem_getSubscriptions_disconnect.mpr ⟨hsubscribed channel hmade, hne⟩

/-- The running connections after a refresh. -/
theorem live?_acceptRefresh :
    (s.acceptRefresh i clientId claims).live? j =
      if i = j then (s.live? j).map fun client => (client.1, tokenExpiry claims)
      else s.live? j := by
  unfold live? acceptRefresh
  dsimp only
  rw [List.getElem?_modify]
  cases s.connections[j]? with
  | none => simp
  | some connection =>
    by_cases hi : i = j
    · subst hi
      by_cases hphase : connection.phase = .running <;> simp [hphase]
    · simp [hi]

/-- A refresh disturbs nobody if no other connection of the client has a token with another
expiry. -/
theorem Intact.acceptRefresh_iff (h : s.Intact made)
    (hown : ∀ clientId' exp, s.live? i = some (clientId', exp) → clientId' = clientId) :
    (s.acceptRefresh i clientId claims).Intact made ↔
      ∀ j exp, s.live? j = some (clientId, exp) → j ≠ i → exp = tokenExpiry claims := by
  constructor
  · intro hafter j exp hrunning hj
    have hregistered := (h j clientId exp hrunning).registered
    have hstill : (s.acceptRefresh i clientId claims).live? j = some (clientId, exp) := by
      rw [live?_acceptRefresh, if_neg (Ne.symm hj)]
      exact hrunning
    have hregistered' := (hafter j clientId exp hstill).registered
    rw [session?_acceptRefresh, if_pos rfl, hregistered, Option.map_some, Option.some.injEq,
      Prod.mk.injEq] at hregistered'
    exact hregistered'.2.symm
  · intro hothers j clientId' exp hrunning
    rw [live?_acceptRefresh] at hrunning
    by_cases hj : i = j
    · subst hj
      rw [if_pos rfl] at hrunning
      obtain ⟨⟨client, old⟩, hbefore, heq⟩ := Option.map_eq_some_iff.mp hrunning
      obtain ⟨rfl, rfl⟩ := Prod.mk.inj heq
      obtain ⟨hs, hregistered, hsubscribed⟩ := h i client old hbefore
      obtain rfl := hown client old hbefore
      refine ⟨hs, ?_, hsubscribed⟩
      rw [session?_acceptRefresh, if_pos rfl, hregistered]
      rfl
    · rw [if_neg hj] at hrunning
      obtain ⟨hs, hregistered, hsubscribed⟩ := h j clientId' exp hrunning
      refine ⟨hs, ?_, hsubscribed⟩
      rw [session?_acceptRefresh]
      split
      · next hclient =>
        subst hclient
        rw [hregistered, hothers j exp hrunning (Ne.symm hj)]
        rfl
      · exact hregistered

/-- The client of a running connection is the one that its tasks act for. -/
theorem live?_eq_of_getElem? {connection : Connection}
    (hconnection : s.connections[i]? = some connection) (clientId' : String) (exp : Option ℚ)
    (h : s.live? i = some (clientId', exp)) : clientId' = connection.clientId := by
  unfold live? at h
  rw [hconnection, Option.bind_some] at h
  split at h
  · exact (Prod.mk.inj (Option.some.inj h)).1.symm
  · cases h

/-- When a refresh disturbs nobody. -/
theorem Intact.handleRefresh_iff (h : s.Intact made) {connection : Connection}
    (hconnection : s.connections[i]? = some connection) {token : String} {now : ℚ} :
    (s.handleRefresh auth i connection token now).Intact made ↔
      s.LockFree ∧ (s.locked = false →
        ∀ state, s.clients.find? connection.clientId = some state →
          ∀ claims, auth.verifyRefresh token connection.clientId state.tokenExp now = some claims →
            ∀ j exp, s.live? j = some (connection.clientId, exp) → j ≠ i →
              exp = tokenExpiry claims) := by
  unfold handleRefresh
  rw [intact_withClientsLock_iff]
  refine and_congr_right fun _ => imp_congr_right fun _ => ?_
  cases hstate : s.clients.find? connection.clientId with
  | none => simp [h.close]
  | some state =>
    simp only [Option.some.injEq, forall_eq']
    cases hverified : auth.verifyRefresh token connection.clientId state.tokenExp now with
    | none => simp [h.close]
    | some claims =>
      simp only [Option.some.injEq, forall_eq']
      exact h.acceptRefresh_iff (live?_eq_of_getElem? hconnection)

/-- When the watchdog of a connection disturbs nobody. -/
theorem Intact.tokenExpiryWatchdog_iff (h : s.Intact made) {connection : Connection} {now : ℚ} :
    (s.tokenExpiryWatchdog config i connection now).Intact made ↔ s.LockFree := by
  unfold tokenExpiryWatchdog
  rw [intact_withClientsLock_iff, and_iff_left_iff_imp]
  intro _ _
  split
  · exact h.close
  · split
    · exact h.close
    · exact h

/-- A change that refuses nobody leaves the lock as it is. -/
theorem locked_updateConnection (f : Connection → Connection)
    (hf : ∀ connection, s.connections[i]? = some connection →
      ((f connection).phase = .refused ↔ connection.phase = .refused)) :
    (s.updateConnection i f).locked = s.locked := by
  have hiff : (s.updateConnection i f).locked = false ↔ s.locked = false := by
    rw [locked_eq_false_iff, locked_eq_false_iff]
    refine forall_congr' fun j => ?_
    rw [getElem?_updateConnection]
    by_cases hj : i = j
    · subst hj
      cases hconnection : s.connections[i]? with
      | none => simp
      | some connection => simp [hf connection hconnection]
    · simp [hj]
  cases hlocked : s.locked with
  | false => exact hiff.mpr hlocked
  | true =>
    rw [hlocked] at hiff
    simpa using hiff

/-- When cleaning up disturbs nobody. -/
theorem Intact.cleanup_iff (h : s.Intact made) {connection : Connection}
    (hconnection : s.connections[i]? = some connection) (hphase : connection.phase = .closing) :
    (s.cleanup i connection).Intact made ↔ (connection.clientId ≠ "" →
      s.LockFree ∧ (s.locked = false → s.Vacant connection.clientId)) := by
  have hlive (j : ℕ) : (s.updateConnection i fun connection =>
      { connection with phase := .finished }).live? j = s.live? j := by
    unfold live?
    rw [getElem?_updateConnection]
    by_cases hj : i = j
    · subst hj
      simp [hconnection, hphase]
    · simp [hj]
  have hlocked : (s.updateConnection i fun connection =>
      { connection with phase := .finished }).locked = s.locked := by
    refine locked_updateConnection _ fun other hother => ?_
    obtain rfl := Option.some.inj (hconnection.symm.trans hother)
    simp [hphase]
  have hfinished : (s.updateConnection i fun connection =>
      { connection with phase := .finished }).Intact made :=
    h.frame (fun j _ hrunning => (hlive j).symm.trans hrunning) rfl (fun _ => rfl) rfl
  unfold cleanup
  dsimp only
  split
  · next hempty => simp [hempty, hfinished]
  · next hclient =>
    have hremove := hfinished.remove_iff connection.clientId
    rw [intact_withClientsLock_iff, hremove]
    unfold LockFree Idle Vacant
    simp only [ne_eq, hclient, not_false_eq_true, true_imp_iff]
    change ((updateConnection s i _).locked = true → ∀ j, (updateConnection s i _).live? j = none) ∧
      ((updateConnection s i _).locked = false → _) ↔ _
    rw [hlocked]
    simp only [hlive]

/-- The record of subscriptions of a connection to come does not matter. -/
theorem Intact.update_length (h : s.Intact made) :
    s.Intact (Function.update made s.connections.length []) := by
  intro j clientId exp hrunning
  have hlt := lt_length_of_live? hrunning
  rw [Function.update_of_ne (by omega)]
  exact h j clientId exp hrunning

/-- When an arrival disturbs nobody. -/
theorem Intact.connect_iff (h : s.Intact made) (hhung : s.hung = false) {token : String} {now : ℚ} :
    (s.connect config auth token now).Intact (Function.update made s.connections.length []) ↔
      ∀ claims, auth.verify token now = some claims →
        s.LockFree ∧ (s.locked = false → s.clients.rows.length < config.maxClients →
          s.Vacant claims.clientId) := by
  unfold connect
  cases hverified : auth.verify token now with
  | none => simp [h.update_length]
  | some claims =>
    simp only [Option.some.injEq, forall_eq']
    rw [intact_withClientsLock_iff]
    refine and_congr_right fun _ => imp_congr_right fun _ => ?_
    split
    · next hcapacity =>
      simp only [h.update_length.refuse, true_iff]
      intro hlt
      omega
    · next hcapacity =>
      rw [h.register_iff hhung]
      exact ⟨fun hvacant _ => hvacant, fun hvacant => hvacant (not_le.mp hcapacity)⟩

/-- Enqueuing a message starts no connection. -/
theorem live?_of_enqueueForClient {client : String × Option ℚ}
    (h : (s.enqueueForClient config clientId message).live? j = some client) :
    s.live? j = some client := by
  revert h
  refine enqueueForClient_induct (P := fun s' => s'.live? j = some client →
    s.live? j = some client) id (fun _ => id) ?_ ?_
  · intro state connection _ _ hrunning
    rw [disconnectSlowConsumer, live?_close] at hrunning
    split at hrunning
    · cases hrunning
    · exact hrunning
  · intro state connection clients queue _ _ _ hrunning
    exact (live?_updateConnection (fun connection => { connection with queue })
      fun _ => ⟨rfl, rfl, Iff.rfl⟩).symm.trans hrunning

/-- Enqueuing a message forgets no delivery. -/
theorem deliveries_enqueueForClient {delivery : Delivery} (h : delivery ∈ s.deliveries) :
    delivery ∈ (s.enqueueForClient config clientId message).deliveries :=
  enqueueForClient_induct (P := fun s' => delivery ∈ s'.deliveries) h (fun _ => h)
    (fun _ _ _ _ => h) fun _ _ _ _ _ _ _ => List.mem_append_left _ h

/-- Enqueuing a message leaves the lock free. -/
theorem locked_enqueueForClient (h : s.locked = false) :
    (s.enqueueForClient config clientId message).locked = false := by
  refine enqueueForClient_induct (P := fun s' => s'.locked = false) h ?_ ?_ ?_
  · intro hlocked
    rw [h] at hlocked
    cases hlocked
  · intro state connection hregistered _
    have hold := locked_eq_false_iff.mp h
    refine (locked_updateConnection (s := { s with clients := s.clients.erase clientId })
      Connection.close fun connection hconnection => ?_).trans h
    have hphase := hold _ connection hconnection
    unfold Connection.close
    split <;> simp [hphase]
  · intro state connection clients queue _ _ _
    exact (locked_updateConnection (s := { s with clients })
      (fun connection => { connection with queue }) fun _ _ => Iff.rfl).trans h

/-- Enqueuing a message disturbs nobody: a slow consumer is closed itself. -/
theorem Intact.enqueueForClient (h : s.Intact made) (hunlocked : s.locked = false) :
    (s.enqueueForClient config clientId message).Intact made := by
  refine enqueueForClient_induct (P := fun s' => s'.Intact made) h ?_ ?_ ?_
  · intro hlocked
    rw [hunlocked] at hlocked
    cases hlocked
  · intro state connection hregistered _ j clientId' exp hrunning
    rw [disconnectSlowConsumer, live?_close] at hrunning
    split at hrunning
    · cases hrunning
    · next hj =>
      obtain ⟨hs, hsession, hsubscribed⟩ := h j clientId' exp hrunning
      refine ⟨hs, ?_, hsubscribed⟩
      have hne : clientId' ≠ clientId := by
        rintro rfl
        have hstate := (registration?_eq_some_iff.mp hregistered).1
        rw [session?, hstate, Option.map_some, Option.some.injEq, Prod.mk.injEq] at hsession
        exact hj hsession.1
      refine session?_erase.trans ?_
      rw [if_neg hne]
      exact hsession
  · intro state connection clients queue _ _ hsessions
    refine h.frame ?_ rfl hsessions rfl
    intro j client hrunning
    exact (live?_updateConnection (fun connection => { connection with queue })
      fun _ => ⟨rfl, rfl, Iff.rfl⟩).symm.trans hrunning

/-- A fan-out that asks for a lock that is held blocks the event loop. -/
theorem foldl_enqueueForClient_of_locked (hlocked : s.locked = true) (hne : entries ≠ []) :
    entries.foldl (fun s entry => s.enqueueForClient config entry.1 entry.2) s =
      { s with hung := true } := by
  have hone (s : WsServer) (hlocked : s.locked = true) (entry : String × ScoreMessage) :
      s.enqueueForClient config entry.1 entry.2 = { s with hung := true } := by
    unfold enqueueForClient withClientsLock
    rw [if_pos hlocked]
  induction entries generalizing s with
  | nil => exact absurd rfl hne
  | cons entry entries ih =>
    rw [List.foldl_cons, hone s hlocked]
    by_cases hrest : entries = []
    · rw [hrest]
      rfl
    · exact ih (s := { s with hung := true }) hlocked hrest

/-- When the publication of an event that has a wallet and a pair disturbs nobody. -/
theorem Intact.publish_routed_iff (h : s.Intact made)
    (hrouted : event.routed? = some (wallet, assetPair)) :
    (s.publishScoreUpdate config event).Intact made ↔
      (fanOut s.router event wallet assetPair (s.seq + 1) ≠ [] → s.LockFree) := by
  have hstore (s' : WsServer) :
      (s'.storeForReplay config event wallet assetPair).Intact made ↔ s'.Intact made := by
    rw [storeForReplay_eq]
    exact intact_congr (fun _ => rfl) rfl (fun _ => rfl) rfl
  unfold publishScoreUpdate
  rw [hrouted]
  dsimp only
  by_cases hempty : fanOut s.router event wallet assetPair (s.seq + 1) = []
  · refine iff_of_true ?_ fun hne => absurd hempty hne
    rw [hempty, List.foldl_nil]
    split
    · exact h.count
    · exact (hstore _).mpr h.count
  · cases hlocked : s.locked with
    | true =>
      rw [foldl_enqueueForClient_of_locked (s := { s with seq := s.seq + 1 }) hlocked hempty]
      exact ⟨fun hafter _ _ => hafter.idle rfl, fun hfree => Idle.intact (hfree hempty hlocked)⟩
    | false =>
      have hfanned := foldl_enqueueForClient_induct config
        (fanOut s.router event wallet assetPair (s.seq + 1))
        (P := fun s' => s'.Intact made ∧ s'.locked = false) ⟨h.count, hlocked⟩
        fun entry _ s' _ hs' => ⟨hs'.1.enqueueForClient hs'.2, locked_enqueueForClient hs'.2⟩
      refine iff_of_true ?_ fun _ hheld => ?_
      · split
        · exact hfanned.1
        · exact (hstore _).mpr hfanned.1
      · rw [hlocked] at hheld
        cases hheld

/-- When a publication disturbs nobody. -/
theorem Intact.publishScoreUpdate_iff (h : s.Intact made) :
    (s.publishScoreUpdate config event).Intact made ↔
      ∀ wallet assetPair, event.routed? = some (wallet, assetPair) →
        fanOut s.router event wallet assetPair (s.seq + 1) ≠ [] → s.LockFree := by
  cases hrouted : event.routed? with
  | none => simp [publishScoreUpdate, hrouted, h]
  | some routed =>
    rw [h.publish_routed_iff hrouted]
    constructor
    · intro hfree wallet assetPair heq
      obtain ⟨rfl, rfl⟩ := Option.some.inj heq
      exact hfree
    · exact fun hfree => hfree _ _ rfl

/-- Enqueuing a message for the client of a running connection delivers it or closes the
connection. -/
theorem Intact.delivered_or_closed (h : s.Intact made) (hunlocked : s.locked = false)
    (hclient : ∀ client, s.live? i = some client → client.1 = clientId) :
    (s.enqueueForClient config clientId message).live? i = none ∨
      ∃ delivery ∈ (s.enqueueForClient config clientId message).deliveries,
        delivery.connection = i ∧ delivery.message = message := by
  cases hrunning : s.live? i with
  | none =>
    refine .inl (Option.eq_none_iff_forall_ne_some.mpr fun client hstarted => ?_)
    rw [live?_of_enqueueForClient hstarted] at hrunning
    cases hrunning
  | some client =>
    obtain ⟨client, exp⟩ := client
    obtain rfl := hclient _ hrunning
    obtain ⟨state, hstate, heq⟩ := Option.map_eq_some_iff.mp (h i client exp hrunning).registered
    obtain ⟨rfl, -⟩ := Prod.mk.inj heq
    have hlt := lt_length_of_live? hrunning
    have hregistered : s.registration? client = some (state, s.connections[state.connection]) :=
      registration?_eq_some_iff.mpr ⟨hstate, List.getElem?_eq_getElem hlt⟩
    unfold WsServer.enqueueForClient withClientsLock
    rw [if_neg (by simp [hunlocked])]
    dsimp only
    rw [hregistered]
    dsimp only
    split
    · exact .inr ⟨_, List.mem_append_right _ (List.mem_singleton_self _), rfl, rfl⟩
    · split
      · exact .inl (live?_close.trans (if_pos rfl))
      · exact .inr ⟨_, List.mem_append_right _ (List.mem_singleton_self _), rfl, rfl⟩

/-- A fan-out with a message for the client of a running connection delivers it or closes the
connection. -/
theorem Intact.foldl_delivered_or_closed (h : s.Intact made) (config : WsConfig)
    (hunlocked : s.locked = false)
    (hclient : ∀ client, s.live? i = some client → client.1 = clientId)
    (hmem : (clientId, message) ∈ entries) :
    (entries.foldl (fun s entry => s.enqueueForClient config entry.1 entry.2) s).live? i = none ∨
      ∃ delivery ∈
          (entries.foldl (fun s entry => s.enqueueForClient config entry.1 entry.2) s).deliveries,
        delivery.connection = i ∧ delivery.message = message := by
  induction entries generalizing s with
  | nil => cases hmem
  | cons entry entries ih =>
    rw [List.foldl_cons]
    obtain hhead | htail := List.mem_cons.mp hmem
    · subst hhead
      refine foldl_enqueueForClient_induct config entries (P := fun s' => s'.live? i = none ∨
        ∃ delivery ∈ s'.deliveries, delivery.connection = i ∧ delivery.message = message)
        (h.delivered_or_closed hunlocked hclient) fun entry _ s' _ hs' => ?_
      obtain hclosed | ⟨delivery, hdelivered, hmessage⟩ := hs'
      · refine .inl (Option.eq_none_iff_forall_ne_some.mpr fun client hstarted => ?_)
        rw [live?_of_enqueueForClient hstarted] at hclosed
        cases hclosed
      · exact .inr ⟨delivery, deliveries_enqueueForClient hdelivered, hmessage⟩
    · exact ih (h.enqueueForClient hunlocked) (locked_enqueueForClient hunlocked)
        (fun client hrunning => hclient client (live?_of_enqueueForClient hrunning)) htail

/-- A publication reaches every connection that stays open and has subscribed to a channel of
the event. -/
theorem Intact.receives (h : s.Intact made)
    (hrouted : event.routed? = some (wallet, assetPair))
    (hfree : fanOut s.router event wallet assetPair (s.seq + 1) ≠ [] → s.LockFree)
    (hbefore : s.live? i = some (clientId, exp))
    (hafter : ((s.publishScoreUpdate config event).live? i).isSome = true)
    (hmade : ∃ channel ∈ made i, channel ∈ [walletChannel wallet, pairChannel assetPair, "all"]) :
    ∃ delivery ∈ (s.publishScoreUpdate config event).deliveries, delivery.connection = i ∧
      delivery.message.event = event ∧ delivery.message.seq = s.seq + 1 := by
  obtain ⟨channel, hmade, hchannel⟩ := hmade
  obtain ⟨message, hmem⟩ : ∃ message, (clientId, message) ∈
      fanOut s.router event wallet assetPair (s.seq + 1) :=
    exists_mem_fanOut hchannel ((h i clientId exp hbefore).subscribed channel hmade)
  have hunlocked : s.locked = false := by
    by_contra hlocked
    have hidle := hfree (List.ne_nil_of_mem hmem) (by simpa using hlocked) i
    rw [hbefore] at hidle
    cases hidle
  obtain ⟨-, -, hevent, hseq⟩ := mem_fanOut hmem
  have hclient (client : String × Option ℚ) (hrunning : s.live? i = some client) :
      client.1 = clientId := by
    rw [hbefore, Option.some.injEq] at hrunning
    rw [← hrunning]
  have hfanned := h.count.foldl_delivered_or_closed config hunlocked hclient hmem
  have hpublished : (s.publishScoreUpdate config event).live? i = none ∨
      ∃ delivery ∈ (s.publishScoreUpdate config event).deliveries,
        delivery.connection = i ∧ delivery.message = message := by
    unfold publishScoreUpdate
    rw [hrouted]
    dsimp only
    split
    · exact hfanned
    · rw [storeForReplay_eq]
      exact hfanned
  obtain hclosed | ⟨delivery, hdelivered, hconnection, rfl⟩ := hpublished
  · rw [hclosed] at hafter
    cases hafter
  · exact ⟨delivery, hdelivered, hconnection, hevent, hseq⟩

/-- What a task does for its connection disturbs nobody exactly if that holds for every
connection for which it happens. -/
theorem Intact.onConnection_iff (h : s.Intact made) {body : Connection → WsServer}
    {P : Connection → Prop}
    (hbody : ∀ connection, s.acting? i = some connection →
      ((body connection).Intact made ↔ P connection)) :
    (s.onConnection i body).Intact made ↔
      ∀ connection, s.acting? i = some connection → P connection := by
  cases hacting : s.acting? i with
  | none =>
    rw [onConnection_of_none hacting]
    exact iff_of_true h fun _ hnone => absurd hnone.symm (Option.some_ne_none _)
  | some connection =>
    rw [onConnection_of_some hacting, hbody connection hacting]
    simp only [Option.some.injEq, forall_eq']

/-- The same for the `finally` block. -/
theorem Intact.onClosing_iff (h : s.Intact made) {body : Connection → WsServer}
    {P : Connection → Prop}
    (hbody : ∀ connection, s.connections[i]? = some connection → connection.phase = .closing →
      ((body connection).Intact made ↔ P connection)) :
    (s.onClosing i body).Intact made ↔
      ∀ connection, s.connections[i]? = some connection → connection.phase = .closing →
        P connection := by
  unfold onClosing
  cases hconnection : s.connections[i]? with
  | none => exact iff_of_true h fun _ hnone => absurd hnone.symm (Option.some_ne_none _)
  | some connection =>
    simp only [Option.some.injEq, forall_eq']
    by_cases hphase : connection.phase = .closing
    · rw [if_pos hphase, hbody connection hconnection hphase]
      exact ⟨fun hp _ => hp, fun hp => hp hphase⟩
    · rw [if_neg hphase]
      exact iff_of_true h fun hclosing => absurd hclosing hphase

end WsServer

namespace SessionHistory

variable {h : SessionHistory} {e : WsEvent}

/-- Where no connection is running, no step disturbs any. -/
theorem apart_of_idle (hidle : h.server.Idle) : h.Apart config auth e := by
  have hnobody (j : ℕ) (client : String × Option ℚ) : h.server.live? j ≠ some client := by
    simp [hidle j]
  cases e with
  | connect token now => exact fun _ _ => ⟨fun _ => hidle, fun _ _ => hidle.vacant⟩
  | subscribe i channels => trivial
  | unsubscribe i channels => exact fun _ _ _ j exp hrunning => absurd hrunning (hnobody j _)
  | replay i channel sinceSeq => trivial
  | refreshToken i token now =>
    exact fun _ _ => ⟨fun _ => hidle, fun _ _ _ _ _ j exp hrunning =>
      absurd hrunning (hnobody j _)⟩
  | checkExpiry i now => exact fun _ _ _ => hidle
  | close i => trivial
  | cleanup i => exact fun _ _ _ _ => ⟨fun _ => hidle, fun _ => hidle.vacant⟩
  | dequeue i => trivial
  | publish event => exact fun _ _ _ _ _ => hidle

/-- A subscription disturbs nobody. -/
theorem intact_subscribe (hintact : h.server.Intact h.made) (hhung : h.server.hung = false)
    (channels : List String) :
    (h.server.onConnection i fun connection => h.server.handleSubscribe connection channels).Intact
      (h.madeAfter (.subscribe i channels)) := by
  simp only [madeAfter]
  cases hacting : h.server.acting? i with
  | none =>
    have hrefused : h.server.subscribes i channels = false := by
      simp [WsServer.subscribes, hacting]
    rw [WsServer.onConnection_of_none hacting, hrefused]
    exact hintact
  | some connection =>
    have hsame : h.server.subscribes i channels = connection.maySubscribe channels := by
      simp [WsServer.subscribes, hacting, hhung]
    rw [WsServer.onConnection_of_some hacting, hsame]
    unfold WsServer.handleSubscribe
    split
    · exact hintact.subscribe
        (WsServer.live?_eq_of_getElem? (WsServer.acting?_eq_some_iff.mp hacting).1)
    · exact hintact

/-- When the end of subscriptions disturbs nobody. -/
theorem intact_unsubscribe_iff (hintact : h.server.Intact h.made)
    (hhung : h.server.hung = false) (channels : List String) :
    (h.server.onConnection i fun connection =>
        h.server.handleUnsubscribe connection channels).Intact
      (h.madeAfter (.unsubscribe i channels)) ↔
        h.Apart config auth (.unsubscribe i channels) := by
  simp only [madeAfter, Apart]
  cases hacting : h.server.acting? i with
  | none =>
    have hrefused : h.server.unsubscribes i channels = false := by
      simp [WsServer.unsubscribes, hacting]
    rw [WsServer.onConnection_of_none hacting, hrefused]
    exact iff_of_true hintact fun hfalse => absurd hfalse Bool.false_ne_true
  | some connection =>
    have hsame : h.server.unsubscribes i channels = channels.all validateChannel := by
      simp [WsServer.unsubscribes, hacting, hhung]
    rw [WsServer.onConnection_of_some hacting, hsame]
    unfold WsServer.handleUnsubscribe
    simp only [Option.some.injEq, forall_eq']
    split
    · next hvalid =>
      simp only [hvalid, true_imp_iff]
      exact hintact.unsubscribe_iff
        (WsServer.live?_eq_of_getElem? (WsServer.acting?_eq_some_iff.mp hacting).1)
    · next hinvalid => exact iff_of_true hintact fun hvalid => absurd hvalid hinvalid

/-- What a step leaves to the connections: everything, exactly under the condition. -/
theorem intact_step_iff (hintact : h.server.Intact h.made) :
    (h.step config auth e).server.Intact (h.step config auth e).made ↔ h.Apart config auth e := by
  cases hhung : h.server.hung with
  | true =>
    have hidle := hintact.idle hhung
    have hsame : (h.step config auth e).server = h.server := if_pos hhung
    rw [hsame]
    exact iff_of_true hidle.intact (apart_of_idle hidle)
  | false =>
    have hstep (s' : WsServer) : (if h.server.hung then h.server else s') = s' := by
      rw [hhung]
      rfl
    cases e <;> simp only [step, WsServer.step, hstep]
    case connect token now => exact hintact.connect_iff hhung
    case subscribe i channels => exact iff_of_true (intact_subscribe hintact hhung channels) trivial
    case unsubscribe i channels => exact intact_unsubscribe_iff hintact hhung channels
    case replay i channel sinceSeq =>
      refine iff_of_true ?_ trivial
      refine WsServer.onConnection_induct (P := fun s' => s'.Intact h.made) hintact
        fun connection _ => ?_
      unfold WsServer.handleReplay
      split
      · exact hintact.frame (fun _ _ hrunning => hrunning) rfl (fun _ => rfl) rfl
      · exact hintact
    case refreshToken i token now =>
      exact hintact.onConnection_iff fun connection hacting =>
        hintact.handleRefresh_iff (WsServer.acting?_eq_some_iff.mp hacting).1
    case checkExpiry i now =>
      exact hintact.onConnection_iff fun connection _ => hintact.tokenExpiryWatchdog_iff
    case close i => exact iff_of_true hintact.close trivial
    case cleanup i =>
      exact hintact.onClosing_iff fun connection hconnection hphase =>
        hintact.cleanup_iff hconnection hphase
    case dequeue i => exact iff_of_true (hintact.updateQueue List.tail) trivial
    case publish event => exact hintact.publishScoreUpdate_iff

/-- A step disturbs nobody exactly under the condition. -/
theorem undisturbed_iff (hintact : h.server.Intact h.made) :
    h.Undisturbed config auth e ↔ h.Apart config auth e := by
  constructor
  · exact fun hundisturbed => (intact_step_iff hintact).mp hundisturbed.intact
  · intro hapart
    refine ⟨(intact_step_iff hintact).mpr hapart, ?_⟩
    rintro event wallet assetPair rfl hrouted i hbefore hafter hmade
    obtain ⟨⟨clientId, exp⟩, hbefore⟩ := Option.isSome_iff_exists.mp hbefore
    have hhung := (hintact i clientId exp hbefore).running
    have hstep : (h.step config auth (.publish event)).server =
        h.server.publishScoreUpdate config event := if_neg (by simp [hhung])
    rw [hstep] at hafter ⊢
    exact hintact.receives hrouted (hapart wallet assetPair hrouted) hbefore hafter hmade

end SessionHistory

/-- In a run, no connection loses what is its own to another one if and only if every step meets
the condition. -/
theorem meets_undisturbed_iff (config : WsConfig) (auth : JWTAuthenticator) (es : List WsEvent) :
    Meets (SessionHistory.step config auth) (SessionHistory.Undisturbed config auth) {} es ↔
      Meets (SessionHistory.step config auth) (SessionHistory.Apart config auth) {} es := by
  refine meets_iff_meets (fun h => h.server.Intact h.made)
    (fun h e hintact => SessionHistory.undisturbed_iff hintact)
    (fun h e hintact hapart => (SessionHistory.intact_step_iff hintact).mpr hapart) ?_ es
  intro i clientId exp hrunning
  cases hrunning

/-- A token for a client. -/
def deskToken : JWTAuthenticator where
  decode _ _ := some ⟨some "desk", some "scores:read", some 100⟩

/-- A client reconnects before its first connection, which is lost, has been cleaned up. -/
def reconnection : List WsEvent :=
  [.connect "token" 0, .close 0, .connect "token" 1, .subscribe 1 ["all"], .cleanup 0]

/-- The second connection is still running when the clean-up of the first one has removed its
registration and its subscription. -/
theorem reconnected_client_unregistered :
    ((exec (SessionHistory.step {} deskToken) {} reconnection).server.live? 1).isSome = true ∧
      (exec (SessionHistory.step {} deskToken) {} reconnection).server.session? "desk" = none ∧
      (exec (SessionHistory.step {} deskToken) {} reconnection).server.router.getSubscribers
        "all" = [] ∧
      ¬Meets (SessionHistory.step {} deskToken) (SessionHistory.Undisturbed {} deskToken) {}
        reconnection := by
  have hnone : (exec (SessionHistory.step {} deskToken) {} reconnection).server.session? "desk" =
      none := by
    decide +kernel
  refine ⟨by decide +kernel, hnone, by decide +kernel, ?_⟩
  rintro ⟨-, -, -, -, hcleanup, -⟩
  have hregistered := (hcleanup.intact 1 "desk" (some 100) (by decide +kernel)).registered
  exact absurd (hnone.symm.trans hregistered) (by decide)

end

end LedgerLens.Streaming
