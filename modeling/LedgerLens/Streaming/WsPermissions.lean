import LedgerLens.Library.Runs
import LedgerLens.Streaming.WsServer

/-!
# Permissions and deliveries

The permissions of a connection are checked when it subscribes and when it asks for a replay.
Publishing an event looks up the subscriptions only, and accepting another token leaves them
as they are. So a client receives what its token no longer permits, unless every step that
changes the token under which a subscription is served finds it permitted.
-/

namespace LedgerLens.Streaming

open JWTAuthenticator Transition

namespace WsServer

variable (config : WsConfig) (auth : JWTAuthenticator)

/-- All that was delivered was permitted by the token that the connection had presented
last. -/
def Permitted (s : WsServer) : Prop :=
  ∀ delivery ∈ s.deliveries,
    isPermittedChannel (extractPermissions delivery.claims) delivery.message.channel = true

instance decidablePermitted : DecidablePred Permitted := fun s =>
  inferInstanceAs (Decidable (∀ delivery ∈ s.deliveries, _ = true))

/-- The claims permit all channels of a list. The name `all` with a line feed at its end passes
the validation, but nothing is published under it. -/
def Permits (claims : Claims) (channels : List String) : Prop :=
  ∀ channel ∈ channels, channel ≠ "all\n" →
    isPermittedChannel (extractPermissions claims) channel = true

/-- Nobody holds the lock. -/
def free (s : WsServer) : Bool := !s.hung && !s.locked

/-- The condition under which a step keeps deliveries permitted. A token that comes into force
for a client, with a new connection or in place of an older token, permits the client's
subscriptions; and so does, for the channels that another connection of the client
subscribes to, the token of the connection that is served. -/
def Rechecked (s : WsServer) : WsEvent → Prop
  | .connect token now =>
    s.free = true → ∀ claims ∈ auth.verify token now,
      s.clients.rows.length < config.maxClients →
        Permits claims (s.router.getSubscriptions claims.clientId)
  | .refreshToken i token now =>
    s.free = true → ∀ connection ∈ s.acting? i,
      ∀ state ∈ s.clients.find? connection.clientId, state.connection = i →
        ∀ claims ∈ auth.verifyRefresh token connection.clientId state.tokenExp now,
          Permits claims (s.router.getSubscriptions connection.clientId)
  | .subscribe i channels =>
    s.hung = false → ∀ connection ∈ s.acting? i, connection.maySubscribe channels = true →
      ∀ served ∈ s.registration? connection.clientId, served.1.connection ≠ i →
        Permits served.2.claims channels
  | _ => True

instance decidablePermits (claims : Claims) (channels : List String) :
    Decidable (Permits claims channels) :=
  inferInstanceAs (Decidable (∀ channel ∈ channels, channel ≠ "all\n" → _ = true))

instance decidableRechecked (s : WsServer) : ∀ e, Decidable (s.Rechecked config auth e)
  | .connect _ _ => inferInstanceAs (Decidable (s.free = true → ∀ claims ∈ _, _ → Permits _ _))
  | .refreshToken i _ _ =>
    inferInstanceAs (Decidable (s.free = true → ∀ connection ∈ s.acting? i,
      ∀ state ∈ s.clients.find? connection.clientId, state.connection = i → ∀ claims ∈ _,
        Permits _ _))
  | .subscribe i channels =>
    inferInstanceAs (Decidable (s.hung = false → ∀ connection ∈ s.acting? i,
      connection.maySubscribe channels = true → ∀ served ∈ _, _ → Permits _ _))
  | .unsubscribe _ _ | .replay _ _ _ | .checkExpiry _ _ | .close _ | .cleanup _ | .dequeue _
  | .publish _ => inferInstanceAs (Decidable True)


/-- The invariant: the permissions of a connection are those of its token, the connection that
is served for a client permits the client's subscriptions, and messages are stored under their
channels. -/
structure Guarded (s : WsServer) : Prop where
  /-- The permissions. -/
  permissions : ∀ (i : ℕ) connection, s.connections[i]? = some connection →
    connection.permissions = extractPermissions connection.claims
  /-- The connections that are served. -/
  served : ∀ clientId i exp, s.session? clientId = some (i, exp) →
    ∃ connection, s.connections[i]? = some connection ∧ connection.clientId = clientId ∧
      Permits connection.claims (s.router.getSubscriptions clientId)
  /-- The replay buffer. -/
  stored : ∀ channel, ∀ entry ∈ s.replayBuffer.buffers channel, entry.2.channel = channel
  /-- What was delivered. -/
  deliveries : s.Permitted

end WsServer

/-- What permissions depend on. -/
def Connection.holder (connection : Connection) : String × List String × Claims :=
  (connection.clientId, connection.permissions, connection.claims)

section

variable {config : WsConfig} {auth : JWTAuthenticator} {s s' : WsServer} {i : ℕ}
  {claims : Claims} {channels channels' : List String} {clientId : String}
  {message : ScoreMessage}

namespace WsServer

/-- Fewer channels are permitted as well. -/
theorem Permits.mono (h : Permits claims channels)
    (hsub : ∀ channel ∈ channels', channel ∈ channels) :
    Permits claims channels' :=
  fun channel hmem => h channel (hsub channel hmem)

/-- No event is published on `all` with a line feed. -/
theorem channel_ne_of_mem {wallet assetPair channel : String}
    (h : channel ∈ [walletChannel wallet, pairChannel assetPair, "all"]) : channel ≠ "all\n" := by
  rintro rfl
  simp only [List.mem_cons, List.not_mem_nil, or_false] at h
  rcases h with h | h | h
  · have hchars := congrArg String.toList h
    simp [walletChannel] at hchars
  · have hchars := congrArg String.toList h
    simp [pairChannel] at hchars
  · exact absurd h (by decide)

/-- A change that leaves the holders alone does not show in the list of holders. -/
theorem map_holder_modify {connections : List Connection} {f : Connection → Connection}
    (hf : ∀ connection, (f connection).holder = connection.holder) :
    (connections.modify i f).map Connection.holder = connections.map Connection.holder := by
  apply List.ext_getElem?
  intro j
  rw [List.getElem?_map, List.getElem?_map, List.getElem?_modify]
  cases connections[j]? with
  | none => rfl
  | some connection => by_cases h : i = j <;> simp [h, hf]

/-- A step that changes no holder keeps the invariant if it registers nobody, subscribes to
nothing, stores nothing and delivers what is permitted. -/
theorem Guarded.frame (h : s.Guarded)
    (hholders : s'.connections.map Connection.holder = s.connections.map Connection.holder)
    (hsessions : ∀ clientId session, s'.session? clientId = some session →
      s.session? clientId = some session)
    (hsubscriptions : ∀ clientId, ∀ channel ∈ s'.router.getSubscriptions clientId,
      channel ∈ s.router.getSubscriptions clientId)
    (hbuffer : s'.replayBuffer = s.replayBuffer) (hdeliveries : s'.Permitted) : s'.Guarded := by
  have hget (i : ℕ) := congrArg (·[i]?) hholders
  simp only [List.getElem?_map] at hget
  refine ⟨?_, ?_, hbuffer ▸ h.stored, hdeliveries⟩
  · intro i connection hconnection
    have hholder := hget i
    rw [hconnection, Option.map_some] at hholder
    obtain ⟨old, hold, heq⟩ := Option.map_eq_some_iff.mp hholder.symm
    simp only [Connection.holder, Prod.mk.injEq] at heq
    rw [← heq.2.1, ← heq.2.2]
    exact h.permissions i old hold
  · intro clientId i exp hsession
    obtain ⟨old, hold, hclient, hpermits⟩ := h.served clientId i exp (hsessions _ _ hsession)
    have hholder := hget i
    rw [hold, Option.map_some] at hholder
    obtain ⟨connection, hconnection, heq⟩ := Option.map_eq_some_iff.mp hholder
    simp only [Connection.holder, Prod.mk.injEq] at heq
    refine ⟨connection, hconnection, heq.1.trans hclient, ?_⟩
    rw [heq.2.2]
    exact hpermits.mono (hsubscriptions clientId)

/-- Changing a connection without its holder keeps the invariant. -/
theorem Guarded.updateConnection (h : s.Guarded) {f : Connection → Connection}
    (hf : ∀ connection, (f connection).holder = connection.holder) :
    (s.updateConnection i f).Guarded :=
  h.frame (map_holder_modify hf) (fun _ _ h => h) (fun _ _ h => h) rfl h.deliveries

theorem holder_close (connection : Connection) : connection.close.holder = connection.holder := by
  unfold Connection.close
  split <;> rfl

/-- Closing a connection keeps the invariant. -/
theorem Guarded.close (h : s.Guarded) : (s.updateConnection i Connection.close).Guarded :=
  h.updateConnection holder_close

/-- Blocking the event loop keeps the invariant. -/
theorem Guarded.hang (h : s.Guarded) : { s with hung := true }.Guarded :=
  h.frame rfl (fun _ _ h => h) (fun _ _ h => h) rfl h.deliveries

/-- A client that is erased has no session, and the others keep theirs. -/
theorem session?_of_erase {clientId' : String} {session : ℕ × Option ℚ}
    (h : session? { s with clients := s.clients.erase clientId } clientId' = some session) :
    s.session? clientId' = some session := by
  rw [session?_erase] at h
  split at h
  · cases h
  · exact h

/-- Enqueuing a message on a channel to which the client is subscribed keeps the invariant. -/
theorem Guarded.enqueueForClient (h : s.Guarded)
    (hsubscribed : message.channel ∈ s.router.getSubscriptions clientId)
    (hchannel : message.channel ≠ "all\n") :
    (s.enqueueForClient config clientId message).Guarded := by
  refine enqueueForClient_induct h (fun _ => h.hang) ?_ ?_
  · intro state connection _ _
    exact h.frame (map_holder_modify holder_close) (fun _ _ => session?_of_erase)
      (fun _ _ h => h) rfl h.deliveries
  · intro state connection clients queue hregistered _ hsessions
    obtain ⟨hstate, hconnection⟩ := registration?_eq_some_iff.mp hregistered
    refine h.frame (map_holder_modify fun _ => rfl) ?_ (fun _ _ h => h) rfl ?_
    · intro clientId' session hsession
      rw [← hsessions clientId']
      exact hsession
    · intro delivery hmem
      obtain hold | hnew := List.mem_append.mp hmem
      · exact h.deliveries delivery hold
      · obtain rfl := List.mem_singleton.mp hnew
        have hsession : s.session? clientId = some (state.connection, state.tokenExp) := by
          simp [session?, hstate]
        obtain ⟨served, hserved, -, hpermits⟩ := h.served _ _ _ hsession
        obtain rfl := Option.some.inj (hconnection.symm.trans hserved)
        exact hpermits _ hsubscribed hchannel

/-- What is appended to a replay buffer is stored under its channel. -/
theorem stored_append {buffer : ReplayBuffer} {maxSize seq : ℕ} {event : ScoreEvent}
    (h : ∀ channel, ∀ entry ∈ buffer.buffers channel, entry.2.channel = channel)
    (channel : String) :
    ∀ other, ∀ entry ∈ (buffer.append maxSize channel seq ⟨event, seq, channel⟩).buffers other,
      entry.2.channel = other := by
  intro other entry hmem
  simp only [ReplayBuffer.append] at hmem
  split at hmem
  · next hother =>
    obtain hold | hnew := List.mem_append.mp (List.mem_of_mem_drop hmem)
    · exact h other entry hold
    · rw [List.mem_singleton.mp hnew, hother]
  · exact h other entry hmem

/-- Storing an event keeps the invariant. -/
theorem Guarded.storeForReplay (h : s.Guarded) {event : ScoreEvent} (wallet assetPair : String) :
    (s.storeForReplay config event wallet assetPair).Guarded := by
  unfold WsServer.storeForReplay
  split
  · exact h
  · exact ⟨h.permissions, h.served, stored_append (stored_append (stored_append h.stored _) _) _,
      h.deliveries⟩

/-- Publishing an event keeps the invariant. -/
theorem Guarded.publishScoreUpdate (h : s.Guarded) (event : ScoreEvent) :
    (s.publishScoreUpdate config event).Guarded := by
  refine publishScoreUpdate_induct h ?_ ?_ ?_
  · intro _ _ _
    exact h.frame rfl (fun _ _ h => h) (fun _ _ h => h) rfl h.deliveries
  · intro wallet assetPair s' clientId message _ hrouter hmem hs'
    obtain ⟨hchannel, hsubscribed, -⟩ := mem_fanOut hmem
    refine hs'.enqueueForClient ?_ (channel_ne_of_mem hchannel)
    rw [hrouter]
    exact hsubscribed
  · intro wallet assetPair s' hs'
    exact hs'.storeForReplay wallet assetPair

/-- The arrival of a connection keeps the invariant. -/
theorem Guarded.arrive (h : s.Guarded) (claims : Claims) (phase : Phase) :
    { s with connections := s.connections ++ [Connection.new claims phase] }.Guarded := by
  refine ⟨?_, ?_, h.stored, h.deliveries⟩
  · intro i connection hconnection
    obtain hold | ⟨-, rfl⟩ := getElem?_concat_eq_some_iff.mp hconnection
    · exact h.permissions i connection hold
    · rfl
  · intro clientId i exp hsession
    obtain ⟨connection, hold, hserved⟩ := h.served clientId i exp hsession
    exact ⟨connection, getElem?_concat_eq_some_iff.mpr (.inl hold), hserved⟩

/-- A new connection keeps the invariant if its token permits what the client is still
subscribed to. -/
theorem Guarded.connect (h : s.Guarded) (token : String) (now : ℚ)
    (hcond : s.locked = false → ∀ claims ∈ auth.verify token now,
      s.clients.rows.length < config.maxClients →
        Permits claims (s.router.getSubscriptions claims.clientId)) :
    (s.connect config auth token now).Guarded := by
  unfold WsServer.connect
  split
  · exact h
  · next claims hverified =>
    refine withClientsLock_induct h.hang fun hunlocked => ?_
    split
    · exact h.arrive claims .refused
    · next hcapacity =>
      have harrived := h.arrive claims .running
      refine ⟨harrived.permissions, ?_, harrived.stored, harrived.deliveries⟩
      intro clientId i exp hsession
      rw [session?_register] at hsession
      split at hsession
      · next hclient =>
        simp only [Option.some.injEq, Prod.mk.injEq] at hsession
        obtain ⟨rfl, -⟩ := hsession
        refine ⟨Connection.new claims .running, ?_, hclient.symm, ?_⟩
        · exact getElem?_concat_eq_some_iff.mpr (.inr ⟨rfl, rfl⟩)
        · rw [hclient]
          exact hcond hunlocked claims hverified (not_le.mp hcapacity)
      · exact harrived.served clientId i exp hsession

/-- A subscription keeps the invariant if the token of the connection that is served
permits it. -/
theorem Guarded.handleSubscribe (h : s.Guarded) {connection : Connection}
    (hconnection : s.connections[i]? = some connection)
    (hcond : connection.maySubscribe channels = true →
      ∀ served ∈ s.registration? connection.clientId, served.1.connection ≠ i →
        Permits served.2.claims channels) :
    (s.handleSubscribe connection channels).Guarded := by
  unfold WsServer.handleSubscribe
  split
  · next hmay =>
    refine ⟨h.permissions, ?_, h.stored, h.deliveries⟩
    intro clientId j exp hsession
    obtain ⟨served, hserved, hclient, hpermits⟩ := h.served clientId j exp hsession
    refine ⟨served, hserved, hclient, ?_⟩
    intro channel hmem hne
    obtain ⟨rfl, hnew⟩ | hold := PubSubRouter.mem_getSubscriptions_subscribe.mp hmem
    · by_cases hj : j = i
      · subst hj
        obtain rfl := Option.some.inj (hconnection.symm.trans hserved)
        unfold Connection.maySubscribe at hmay
        rw [Bool.and_eq_true, List.all_eq_true, List.all_eq_true] at hmay
        rw [← h.permissions j connection hconnection]
        exact hmay.2 channel hnew
      · obtain ⟨state, hstate, heq⟩ := Option.map_eq_some_iff.mp hsession
        obtain ⟨rfl, -⟩ := Prod.mk.inj heq
        exact hcond hmay (state, served) (registration?_eq_some_iff.mpr ⟨hstate, hserved⟩) hj
          channel hnew hne
    · exact hpermits channel hold hne
  · exact h

/-- A refresh keeps the invariant if the new token permits the client's subscriptions where
the connection is the one that is served. -/
theorem Guarded.handleRefresh (h : s.Guarded) {connection : Connection}
    (hconnection : s.connections[i]? = some connection) (token : String) (now : ℚ)
    (hcond : s.locked = false → ∀ state ∈ s.clients.find? connection.clientId,
      state.connection = i →
        ∀ claims ∈ auth.verifyRefresh token connection.clientId state.tokenExp now,
          Permits claims (s.router.getSubscriptions connection.clientId)) :
    (s.handleRefresh auth i connection token now).Guarded := by
  unfold WsServer.handleRefresh
  refine withClientsLock_induct h.hang fun hunlocked => ?_
  split
  · exact h.close
  · next state hstate =>
    split
    · exact h.close
    · next claims hverified =>
      have hget (j : ℕ) : (s.connections.modify i fun connection =>
          { connection with permissions := extractPermissions claims, claims })[j]? =
            (s.connections[j]?).map fun connection => if i = j then
              { connection with permissions := extractPermissions claims, claims }
            else connection := List.getElem?_modify ..
      refine ⟨?_, ?_, h.stored, h.deliveries⟩
      · intro j changed hchanged
        obtain ⟨old, hold, rfl⟩ := Option.map_eq_some_iff.mp ((hget j).symm.trans hchanged)
        split
        · rfl
        · exact h.permissions j old hold
      · intro clientId j exp hsession
        have hold : ∃ exp, s.session? clientId = some (j, exp) ∧
            (clientId = connection.clientId → state.connection = j) := by
          rw [session?_acceptRefresh] at hsession
          split at hsession
          · next hclient =>
            have hbefore : s.session? connection.clientId =
                some (state.connection, state.tokenExp) := by
              simp [session?, hstate]
            rw [hbefore, Option.map_some, Option.some.injEq, Prod.mk.injEq] at hsession
            rw [hclient, ← hsession.1]
            exact ⟨state.tokenExp, hbefore, fun _ => rfl⟩
          · next hclient => exact ⟨exp, hsession, fun heq => absurd heq hclient⟩
        obtain ⟨exp, hbefore, hserves⟩ := hold
        obtain ⟨served, hserved, hclient, hpermits⟩ := h.served clientId j exp hbefore
        refine ⟨_, (hget j).trans (by rw [hserved]; rfl), ?_, ?_⟩
        · split <;> exact hclient
        · split
          · next hj =>
            subst hj
            obtain rfl := Option.some.inj (hconnection.symm.trans hserved)
            rw [← hclient]
            exact hcond hunlocked state hstate (hserves hclient.symm) claims hverified
          · exact hpermits

/-- A replay keeps the invariant: the connection's permissions are checked. -/
theorem Guarded.handleReplay (h : s.Guarded) {connection : Connection}
    (hconnection : s.connections[i]? = some connection) (channel : String) (sinceSeq : ℤ) :
    (s.handleReplay i connection channel sinceSeq).Guarded := by
  unfold WsServer.handleReplay
  split
  · next hpermitted =>
    refine h.frame rfl (fun _ _ h => h) (fun _ _ h => h) rfl ?_
    intro delivery hmem
    obtain hold | hnew := List.mem_append.mp hmem
    · exact h.deliveries delivery hold
    · obtain ⟨message, hmessage, rfl⟩ := List.mem_map.mp hnew
      obtain ⟨entry, hentry, rfl⟩ := List.mem_map.mp hmessage
      rw [h.stored channel entry (List.mem_of_mem_filter hentry),
        ← h.permissions i connection hconnection]
      exact (Bool.and_eq_true_iff.mp hpermitted).2
  · exact h

/-- Cleaning up keeps the invariant. -/
theorem Guarded.cleanup (h : s.Guarded) (connection : Connection) :
    (s.cleanup i connection).Guarded := by
  have hfinished : (s.updateConnection i fun connection =>
    { connection with phase := .finished }).Guarded := h.updateConnection fun _ => rfl
  unfold WsServer.cleanup
  dsimp only
  split
  · exact hfinished
  · have hsubscriptions (clientId channel : String) (hmem : channel ∈
        (s.router.disconnect connection.clientId).getSubscriptions clientId) :
        channel ∈ s.router.getSubscriptions clientId :=
      (PubSubRouter.mem_getSubscriptions_disconnect.mp hmem).1
    refine withClientsLock_induct ?_ fun _ => ?_
    · exact hfinished.frame rfl (fun _ _ h => h) hsubscriptions rfl h.deliveries
    · exact hfinished.frame rfl (fun _ _ => session?_of_erase) hsubscriptions rfl h.deliveries

/-- One step keeps the invariant if it meets the condition. -/
theorem Guarded.step (h : s.Guarded) (e : WsEvent) (hcond : s.Rechecked config auth e) :
    (s.step config auth e).Guarded := by
  unfold WsServer.step
  split
  · exact h
  · next hhung =>
    rw [Bool.not_eq_true] at hhung
    have hfree (hunlocked : s.locked = false) : s.free = true := by simp [free, hhung, hunlocked]
    cases e with
    | connect token now => exact h.connect token now fun hunlocked => hcond (hfree hunlocked)
    | subscribe i channels =>
      refine onConnection_induct h fun connection hacting => ?_
      exact h.handleSubscribe (acting?_eq_some_iff.mp hacting).1 (hcond hhung connection hacting)
    | unsubscribe i channels =>
      refine onConnection_induct h fun connection _ => ?_
      unfold handleUnsubscribe
      split
      · refine h.frame rfl (fun _ _ h => h) ?_ rfl h.deliveries
        intro clientId channel hmem
        exact (PubSubRouter.mem_getSubscriptions_unsubscribe.mp hmem).1
      · exact h
    | replay i channel sinceSeq =>
      refine onConnection_induct h fun connection hacting => ?_
      exact h.handleReplay (acting?_eq_some_iff.mp hacting).1 channel sinceSeq
    | refreshToken i token now =>
      refine onConnection_induct h fun connection hacting => ?_
      exact h.handleRefresh (acting?_eq_some_iff.mp hacting).1 token now fun hunlocked =>
        hcond (hfree hunlocked) connection hacting
    | checkExpiry i now =>
      refine onConnection_induct h fun connection _ => ?_
      unfold tokenExpiryWatchdog
      refine withClientsLock_induct h.hang fun _ => ?_
      split
      · exact h.close
      · split
        · exact h.close
        · exact h
    | close i => exact h.close
    | cleanup i => exact onClosing_induct h fun connection _ _ => h.cleanup connection
    | dequeue i => exact h.updateConnection fun _ => rfl
    | publish event => exact h.publishScoreUpdate event

/-- Nothing is wrong at the start. -/
theorem guarded_start : ({} : WsServer).Guarded :=
  ⟨by simp, by simp [session?], by simp, by simp [Permitted]⟩

end WsServer

/-- In every run whose steps meet the condition, what is delivered is permitted. -/
theorem always_permitted_of_meets_rechecked {es : List WsEvent}
    (h : Meets (WsServer.step config auth) (WsServer.Rechecked config auth) {} es) :
    Always (WsServer.step config auth) WsServer.Permitted {} es :=
  always_of_meets WsServer.Guarded (fun _ hs => hs.deliveries) (fun _ e hs => hs.step e)
    WsServer.guarded_start h

/-- Two tokens for one client, the first of which reads everything and the second one pair. -/
def deskTokens : JWTAuthenticator where
  decode token _ :=
    if token = "wide" then some ⟨some "desk", some "scores:read", some 100⟩
    else if token = "narrow" then some ⟨some "desk", some "scores:read:pair/XLM:USDC", some 200⟩
    else none

/-- A client that gives up a subscription before it presents the second token. -/
theorem always_permitted_of_meets_rechecked_unsubscribed :
    Always (WsServer.step {} deskTokens) WsServer.Permitted {}
      [.connect "wide" 0, .subscribe 0 ["all", "pair/XLM:USDC"],
        .publish ⟨some "GA", some "BTC:USDC", ""⟩, .unsubscribe 0 ["all"],
        .refreshToken 0 "narrow" 1, .publish ⟨some "GA", some "XLM:USDC", ""⟩] :=
  always_permitted_of_meets_rechecked (by decide +kernel)

/-- A client that does not: it is still served on the channel for everything. -/
theorem narrowed_client_still_served :
    ¬Always (WsServer.step {} deskTokens) WsServer.Permitted {}
      [.connect "wide" 0, .subscribe 0 ["all"], .refreshToken 0 "narrow" 1,
        .publish ⟨some "GA", some "BTC:USDC", ""⟩] := by
  decide +kernel

end

end LedgerLens.Streaming
