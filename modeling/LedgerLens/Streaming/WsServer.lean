import LedgerLens.Library.UniqueTable
import LedgerLens.Streaming.PubSubRouter
import LedgerLens.Streaming.WsAuth
import Mathlib.Data.List.DropRight

/-!
# The WebSocket server

The server runs on one event loop: what a task does between two awaits is one step. A
connection is registered under the subject of its token, and so are its subscriptions; its
queue and its permissions are its own.

A connection that is refused for lack of capacity waits for the end of the closing handshake
inside the block that holds the lock of the clients. A step that asks for the lock in the
meantime blocks the event loop, and with it the task that would release the lock.
-/

namespace LedgerLens.Streaming

open JWTAuthenticator

/-- `WS_SLOW_CONSUMER_POLICY`. -/
inductive SlowConsumerPolicy where
  /-- `drop_oldest`. -/
  | dropOldest
  /-- `disconnect`. -/
  | disconnect
  deriving DecidableEq

/-- The settings of the server. -/
structure WsConfig where
  /-- `WS_MAX_CLIENTS`. -/
  maxClients : ℕ := 200
  /-- `WS_CLIENT_QUEUE_DEPTH`, where zero means no bound. -/
  clientQueueDepth : ℕ := 100
  /-- `WS_REPLAY_BUFFER_SIZE`. -/
  replayBufferSize : ℕ := 1000
  /-- `WS_SLOW_CONSUMER_POLICY`. -/
  slowConsumerPolicy : SlowConsumerPolicy := .dropOldest
  /-- `WS_SLOW_CONSUMER_MAX_DROPS`, where zero means no bound. -/
  slowConsumerMaxDrops : ℕ := 0
  /-- `WS_TOKEN_EXPIRY_GRACE_SECONDS`. -/
  tokenExpiryGrace : ℚ := 0

/-- A score event. -/
structure ScoreEvent where
  /-- `wallet`. -/
  wallet : Option String
  /-- `asset_pair`. -/
  assetPair : Option String
  /-- The other keys, which are passed on. -/
  details : String := ""
  deriving DecidableEq

/-- The wallet and the pair of an event that is published: both are there and not empty. -/
def ScoreEvent.routed? (event : ScoreEvent) : Option (String × String) :=
  match event.wallet, event.assetPair with
  | some wallet, some assetPair =>
    if wallet = "" ∨ assetPair = "" then none else some (wallet, assetPair)
  | _, _ => none

/-- A message of type `score_update`. -/
structure ScoreMessage where
  /-- The event. -/
  event : ScoreEvent
  /-- `seq`. -/
  seq : ℕ
  /-- `channel`. -/
  channel : String
  deriving DecidableEq

/-- What waits in the queue of a client. -/
inductive Outgoing where
  /-- A score update. -/
  | scoreUpdate (message : ScoreMessage)
  /-- `DroppedMessage`. -/
  | dropped (count : ℕ)
  deriving DecidableEq

/-- `ReplayBuffer`: the last messages of each channel. -/
structure ReplayBuffer where
  /-- `_buffers`. -/
  buffers : String → List (ℕ × ScoreMessage) := fun _ => []

/-- `append`, for a deque of bounded length. -/
def ReplayBuffer.append (maxSize : ℕ) (buffer : ReplayBuffer) (channel : String) (seq : ℕ)
    (message : ScoreMessage) : ReplayBuffer where
  buffers other :=
    if other = channel then (buffer.buffers other ++ [(seq, message)]).rtake maxSize
    else buffer.buffers other

/-- `get_since`. -/
def ReplayBuffer.getSince (buffer : ReplayBuffer) (channel : String) (sinceSeq : ℤ) :
    List ScoreMessage :=
  ((buffer.buffers channel).filter fun entry => sinceSeq ≤ entry.1).map Prod.snd

/-- Where the handler of a connection stands. -/
inductive Phase where
  /-- It waits for the closing handshake after it was refused, holding the lock. -/
  | refused
  /-- Its tasks are running. -/
  | running
  /-- One of its tasks has ended or the connection is closing; cleaning up is still to come. -/
  | closing
  /-- It has cleaned up. -/
  | finished
  deriving DecidableEq

/-- A connection whose token was accepted. -/
structure Connection where
  /-- `client_id`. -/
  clientId : String
  /-- `permissions`. -/
  permissions : List String
  /-- `client_queue`. -/
  queue : List Outgoing
  /-- Where its handler stands. -/
  phase : Phase
  /-- The claims of the token accepted last. -/
  claims : Claims
  deriving DecidableEq

/-- A new connection whose token was accepted. -/
def Connection.new (claims : Claims) (phase : Phase) : Connection :=
  { clientId := claims.clientId, permissions := extractPermissions claims, queue := [], phase,
    claims }

/-- An entry of `_clients`. -/
structure ClientState where
  /-- The connection whose `websocket` and `queue` these are. -/
  connection : ℕ
  /-- `token_exp`. -/
  tokenExp : Option ℚ
  /-- `drops`. -/
  drops : ℕ
  deriving DecidableEq

/-- A score message that was put in a connection's queue or replayed to it. -/
structure Delivery where
  /-- The connection. -/
  connection : ℕ
  /-- The claims of the token that the connection had presented last. -/
  claims : Claims
  /-- The message. -/
  message : ScoreMessage
  deriving DecidableEq

/-- The state of the server, with its connections in the order of their arrival and a record
of what was delivered. -/
structure WsServer where
  /-- `_clients`. -/
  clients : UniqueTable String ClientState := .empty
  /-- `_router`. -/
  router : PubSubRouter := {}
  /-- `_seq_counter`. -/
  seq : ℕ := 0
  /-- `_replay_buffer`. -/
  replayBuffer : ReplayBuffer := {}
  /-- The connections. -/
  connections : List Connection := []
  /-- Whether the event loop is blocked for good. -/
  hung : Bool := false
  /-- What was delivered. -/
  deliveries : List Delivery := []

/-- `CHANNEL_REGEX` without its anchors. -/
def channelRegex (channel : List Char) : Bool :=
  let wallet := channel.drop "wallet/G".length
  let pair := channel.drop "pair/".length
  ("wallet/G".toList.isPrefixOf channel && wallet.length = 55 &&
      wallet.all fun c => ('A' ≤ c && c ≤ 'Z') || ('2' ≤ c && c ≤ '7')) ||
    ("pair/".toList.isPrefixOf channel && !pair.isEmpty &&
      pair.all fun c => ('A' ≤ c && c ≤ 'Z') || ('0' ≤ c && c ≤ '9') || c ∈ [':', '/', '-']) ||
    channel = "all".toList

/-- `_validate_channel`. The anchor `$` also matches before a final line feed. -/
def validateChannel (channel : String) : Bool :=
  channelRegex channel.toList ||
    (channel.toList.getLast? = some '\n' && channelRegex channel.toList.dropLast)

/-- Whether `_handle_subscribe` accepts the channels. -/
def Connection.maySubscribe (connection : Connection) (channels : List String) : Bool :=
  channels.all validateChannel && channels.all (isPermittedChannel connection.permissions)

/-- The end of one of its tasks, of the connection itself, or of the handshake after a
refusal. -/
def Connection.close (connection : Connection) : Connection :=
  if connection.phase = .finished then connection else { connection with phase := .closing }

/-- The messages of `publish_score_update` in their order, with the clients for whom they
are. -/
def fanOut (router : PubSubRouter) (event : ScoreEvent) (wallet assetPair : String) (seq : ℕ) :
    List (String × ScoreMessage) :=
  let channelSubscribers := router.getSubscribers (walletChannel wallet)
  let pairSubscribers :=
    (router.getSubscribers (pairChannel assetPair)).filter (· ∉ channelSubscribers)
  let allSubscribers := (router.getSubscribers "all").filter (· ∉ channelSubscribers)
  channelSubscribers.map (fun clientId => (clientId, ⟨event, seq, walletChannel wallet⟩)) ++
    pairSubscribers.map (fun clientId => (clientId, ⟨event, seq, pairChannel assetPair⟩)) ++
    allSubscribers.map fun clientId => (clientId, ⟨event, seq, "all"⟩)

/-- `Queue.full`. -/
def WsConfig.full (config : WsConfig) (queue : List Outgoing) : Bool :=
  config.clientQueueDepth ≠ 0 && config.clientQueueDepth ≤ queue.length

/-- A full queue after the oldest message has made room for a new one and, if there is more
room, for a notice. -/
def WsConfig.dropOldest (config : WsConfig) (queue : List Outgoing) (message : ScoreMessage) :
    List Outgoing :=
  let queue := queue.tail ++ [.scoreUpdate message]
  if config.full queue then queue else queue ++ [.dropped 1]

namespace WsServer

variable (config : WsConfig) (auth : JWTAuthenticator)

/-- Somebody holds the lock of the clients across an await. -/
def locked (s : WsServer) : Bool := s.connections.any fun connection => connection.phase = .refused

/-- `with _clients_lock`. -/
def withClientsLock (s : WsServer) (body : WsServer → WsServer) : WsServer :=
  if s.locked then { s with hung := true } else body s

/-- Change a connection. -/
def updateConnection (s : WsServer) (i : ℕ) (f : Connection → Connection) : WsServer :=
  { s with connections := s.connections.modify i f }

/-- A connection is refused. -/
def refuse (s : WsServer) (claims : Claims) : WsServer :=
  { s with connections := s.connections ++ [Connection.new claims .refused] }

/-- A connection is registered. -/
def register (s : WsServer) (claims : Claims) : WsServer :=
  { s with
    connections := s.connections ++ [Connection.new claims .running]
    clients := s.clients.put claims.clientId
      { connection := s.connections.length, tokenExp := tokenExpiry claims, drops := 0 } }

/-- `_handler` up to the start of its tasks. -/
def connect (s : WsServer) (token : String) (now : ℚ) : WsServer :=
  match auth.verify token now with
  | none => s
  | some claims =>
    s.withClientsLock fun s =>
      if config.maxClients ≤ s.clients.rows.length then s.refuse claims else s.register claims

/-- `_handle_subscribe`. -/
def handleSubscribe (s : WsServer) (connection : Connection) (channels : List String) : WsServer :=
  if connection.maySubscribe channels then
    { s with router := s.router.subscribe connection.clientId channels }
  else s

/-- `_handle_unsubscribe`. -/
def handleUnsubscribe (s : WsServer) (connection : Connection) (channels : List String) :
    WsServer :=
  if channels.all validateChannel then
    { s with router := s.router.unsubscribe connection.clientId channels }
  else s

/-- `_handle_replay`. -/
def handleReplay (s : WsServer) (i : ℕ) (connection : Connection) (channel : String)
    (sinceSeq : ℤ) : WsServer :=
  if validateChannel channel && isPermittedChannel connection.permissions channel then
    { s with
      deliveries := s.deliveries ++ (s.replayBuffer.getSince channel sinceSeq).map
        fun message => ⟨i, connection.claims, message⟩ }
  else s

/-- A refresh is accepted. -/
def acceptRefresh (s : WsServer) (i : ℕ) (clientId : String) (claims : Claims) : WsServer :=
  { s with
    connections := s.connections.modify i fun connection =>
      { connection with permissions := extractPermissions claims, claims }
    clients := s.clients.modify clientId fun state =>
      { state with tokenExp := tokenExpiry claims } }

/-- `_handle_refresh`. -/
def handleRefresh (s : WsServer) (i : ℕ) (connection : Connection) (token : String) (now : ℚ) :
    WsServer :=
  s.withClientsLock fun s =>
    match s.clients.find? connection.clientId with
    | none => s.updateConnection i Connection.close
    | some state =>
      match auth.verifyRefresh token connection.clientId state.tokenExp now with
      | none => s.updateConnection i Connection.close
      | some claims => s.acceptRefresh i connection.clientId claims

/-- One round of `_token_expiry_watchdog`. -/
def tokenExpiryWatchdog (s : WsServer) (i : ℕ) (connection : Connection) (now : ℚ) : WsServer :=
  s.withClientsLock fun s =>
    match s.clients.find? connection.clientId with
    | none => s.updateConnection i Connection.close
    | some state =>
      if expired now (state.tokenExp.map (· + config.tokenExpiryGrace)) then
        s.updateConnection i Connection.close
      else s

/-- `_disconnect_slow_consumer`. -/
def disconnectSlowConsumer (s : WsServer) (clientId : String) (i : ℕ) : WsServer :=
  { s with clients := s.clients.erase clientId }.updateConnection i Connection.close

/-- A registered client with its connection. -/
def registration? (s : WsServer) (clientId : String) : Option (ClientState × Connection) :=
  (s.clients.find? clientId).bind fun state =>
    s.connections[state.connection]?.map fun connection => (state, connection)

/-- Put a message in the queue of a connection, which becomes `queue`. -/
def deliver (s : WsServer) (i : ℕ) (connection : Connection) (queue : List Outgoing)
    (message : ScoreMessage) : WsServer :=
  { s.updateConnection i fun connection => { connection with queue } with
    deliveries := s.deliveries ++ [⟨i, connection.claims, message⟩] }

/-- `_enqueue_for_client`. -/
def enqueueForClient (s : WsServer) (clientId : String) (message : ScoreMessage) : WsServer :=
  s.withClientsLock fun s =>
    match s.registration? clientId with
    | none => s
    | some (state, connection) =>
      if !config.full connection.queue then
        s.deliver state.connection connection (connection.queue ++ [.scoreUpdate message]) message
      else
        let drops := state.drops + 1
        if config.slowConsumerPolicy = .disconnect ∨
            (0 < config.slowConsumerMaxDrops ∧ config.slowConsumerMaxDrops < drops) then
          s.disconnectSlowConsumer clientId state.connection
        else
          { s with clients := s.clients.modify clientId fun state => { state with drops } }.deliver
            state.connection connection (config.dropOldest connection.queue message) message

/-- The end of `publish_score_update`: the event is stored for each of its channels, if the
channel of its wallet has subscribers. -/
def storeForReplay (s : WsServer) (event : ScoreEvent) (wallet assetPair : String) : WsServer :=
  if (s.router.getSubscribers (walletChannel wallet)).isEmpty then s
  else
    { s with
      replayBuffer := [walletChannel wallet, pairChannel assetPair, "all"].foldl
        (fun buffer channel =>
          buffer.append config.replayBufferSize channel s.seq ⟨event, s.seq, channel⟩)
        s.replayBuffer }

/-- `publish_score_update`. -/
def publishScoreUpdate (s : WsServer) (event : ScoreEvent) : WsServer :=
  match event.routed? with
  | none => s
  | some (wallet, assetPair) =>
    let s := { s with seq := s.seq + 1 }
    let s := (fanOut s.router event wallet assetPair s.seq).foldl
      (fun s entry => s.enqueueForClient config entry.1 entry.2) s
    if s.hung then s else s.storeForReplay config event wallet assetPair

/-- The `finally` block of `_handler`. -/
def cleanup (s : WsServer) (i : ℕ) (connection : Connection) : WsServer :=
  let s := s.updateConnection i fun connection => { connection with phase := .finished }
  if connection.clientId = "" then s
  else
    { s with router := s.router.disconnect connection.clientId }.withClientsLock fun s =>
      { s with clients := s.clients.erase connection.clientId }

/-- A connection whose tasks may still run. -/
def acting? (s : WsServer) (i : ℕ) : Option Connection :=
  s.connections[i]?.filter fun connection =>
    connection.phase = .running ∨ connection.phase = .closing

/-- What a task does for such a connection. -/
def onConnection (s : WsServer) (i : ℕ) (body : Connection → WsServer) : WsServer :=
  match s.acting? i with
  | none => s
  | some connection => body connection

/-- The `finally` block, if its turn has come. -/
def onClosing (s : WsServer) (i : ℕ) (body : Connection → WsServer) : WsServer :=
  match s.connections[i]? with
  | none => s
  | some connection => if connection.phase = .closing then body connection else s

end WsServer

/-- What happens next. Connections are named by the order of their arrival. -/
inductive WsEvent where
  /-- A connection presents a token. -/
  | connect (token : String) (now : ℚ)
  /-- A `SubscribeMessage` arrives. -/
  | subscribe (connection : ℕ) (channels : List String)
  /-- An `UnsubscribeMessage` arrives. -/
  | unsubscribe (connection : ℕ) (channels : List String)
  /-- A `ReplayMessage` arrives. -/
  | replay (connection : ℕ) (channel : String) (sinceSeq : ℤ)
  /-- A message of type `refresh_token` arrives. -/
  | refreshToken (connection : ℕ) (token : String) (now : ℚ)
  /-- The watchdog of a connection wakes up. -/
  | checkExpiry (connection : ℕ) (now : ℚ)
  /-- A task of the connection ends, because the connection is lost, closed or blocked; or the
  handshake after its refusal ends. -/
  | close (connection : ℕ)
  /-- The handler of a connection cleans up. -/
  | cleanup (connection : ℕ)
  /-- The next message of a connection is sent. -/
  | dequeue (connection : ℕ)
  /-- A score is published. -/
  | publish (event : ScoreEvent)

/-- One step of the server. -/
def WsServer.step (config : WsConfig) (auth : JWTAuthenticator) (s : WsServer) (e : WsEvent) :
    WsServer :=
  if s.hung then s
  else
    match e with
    | .connect token now => s.connect config auth token now
    | .subscribe i channels =>
      s.onConnection i fun connection => s.handleSubscribe connection channels
    | .unsubscribe i channels =>
      s.onConnection i fun connection => s.handleUnsubscribe connection channels
    | .replay i channel sinceSeq =>
      s.onConnection i fun connection => s.handleReplay i connection channel sinceSeq
    | .refreshToken i token now =>
      s.onConnection i fun connection => s.handleRefresh auth i connection token now
    | .checkExpiry i now =>
      s.onConnection i fun connection => s.tokenExpiryWatchdog config i connection now
    | .close i => s.updateConnection i Connection.close
    | .cleanup i => s.onClosing i fun connection => s.cleanup i connection
    | .dequeue i =>
      s.updateConnection i fun connection => { connection with queue := connection.queue.tail }
    | .publish event => s.publishScoreUpdate config event

/-- What is registered for a client apart from its drops. -/
def WsServer.session? (s : WsServer) (clientId : String) : Option (ℕ × Option ℚ) :=
  (s.clients.find? clientId).map fun state => (state.connection, state.tokenExp)

section

variable {config : WsConfig} {auth : JWTAuthenticator} {s : WsServer} {event : ScoreEvent}
  {wallet assetPair clientId clientId' : String} {message : ScoreMessage} {seq i j : ℕ}
  {P : WsServer → Prop}

/-- A message is for a client on a channel of the event to which it has subscribed. -/
theorem mem_fanOut {router : PubSubRouter}
    (h : (clientId, message) ∈ fanOut router event wallet assetPair seq) :
    message.channel ∈ [walletChannel wallet, pairChannel assetPair, "all"] ∧
      message.channel ∈ router.getSubscriptions clientId ∧ message.event = event ∧
        message.seq = seq := by
  simp only [fanOut, List.mem_append, List.mem_map, List.mem_filter, Prod.mk.injEq] at h
  rcases h with (⟨client, hmem, rfl, rfl⟩ | ⟨client, ⟨hmem, -⟩, rfl, rfl⟩) |
    ⟨client, ⟨hmem, -⟩, rfl, rfl⟩
  all_goals exact ⟨by simp, PubSubRouter.mem_getSubscribers_iff.mp hmem, rfl, rfl⟩

/-- Each subscriber of a channel of the event gets a message. -/
theorem exists_mem_fanOut {router : PubSubRouter} {channel : String}
    (hchannel : channel ∈ [walletChannel wallet, pairChannel assetPair, "all"])
    (hsubscribed : channel ∈ router.getSubscriptions clientId) :
    ∃ message, (clientId, message) ∈ fanOut router event wallet assetPair seq := by
  rw [← PubSubRouter.mem_getSubscribers_iff] at hsubscribed
  by_cases hwallet : clientId ∈ router.getSubscribers (walletChannel wallet)
  · refine ⟨⟨event, seq, walletChannel wallet⟩, ?_⟩
    simp [fanOut, hwallet]
  · simp only [List.mem_cons, List.not_mem_nil, or_false] at hchannel
    rcases hchannel with rfl | rfl | rfl
    · exact absurd hsubscribed hwallet
    · refine ⟨⟨event, seq, pairChannel assetPair⟩, ?_⟩
      simp [fanOut, hwallet, hsubscribed]
    · refine ⟨⟨event, seq, "all"⟩, ?_⟩
      simp [fanOut, hwallet, hsubscribed]

namespace WsServer

theorem registration?_eq_some_iff {state : ClientState} {connection : Connection} :
    s.registration? clientId = some (state, connection) ↔
      s.clients.find? clientId = some state ∧
        s.connections[state.connection]? = some connection := by
  unfold registration?
  cases hclient : s.clients.find? clientId with
  | none => simp
  | some found =>
    simp only [Option.bind_some, Option.map_eq_some_iff, Prod.mk.injEq, Option.some.injEq]
    constructor
    · rintro ⟨_, hconnection, rfl, rfl⟩
      exact ⟨rfl, hconnection⟩
    · rintro ⟨rfl, hconnection⟩
      exact ⟨connection, hconnection, rfl, rfl⟩

/-- The connections after an arrival. -/
theorem getElem?_concat_eq_some_iff {connections : List Connection}
    {connection connection' : Connection} :
    (connections ++ [connection])[i]? = some connection' ↔
      connections[i]? = some connection' ∨ (i = connections.length ∧ connection' = connection) := by
  obtain hlt | rfl | hgt := Nat.lt_trichotomy i connections.length
  · rw [List.getElem?_append_left hlt]
    exact ⟨.inl, fun h => h.resolve_right fun ⟨heq, _⟩ => by omega⟩
  · simp [eq_comm]
  · have hnone : connections[i]? = none := List.getElem?_eq_none (by omega)
    have hnone' : (connections ++ [connection])[i]? = none :=
      List.getElem?_eq_none (by rw [List.length_append, List.length_singleton]; omega)
    simp only [hnone, hnone', reduceCtorEq, false_or, false_iff]
    omega

@[simp] theorem getElem?_updateConnection (f : Connection → Connection) :
    (s.updateConnection i f).connections[j]? =
      (s.connections[j]?).map fun connection => if i = j then f connection else connection :=
  List.getElem?_modify ..

/-- What is registered after a registration. -/
theorem session?_register {claims : Claims} :
    (s.register claims).session? clientId =
      if clientId = claims.clientId then some (s.connections.length, tokenExpiry claims)
      else s.session? clientId := by
  unfold session? register
  rw [UniqueTable.find?_put]
  split <;> rfl

/-- What is registered after a refresh. -/
theorem session?_acceptRefresh {claims : Claims} :
    (s.acceptRefresh i clientId claims).session? clientId' =
      if clientId' = clientId then
        (s.session? clientId).map fun session => (session.1, tokenExpiry claims)
      else s.session? clientId' := by
  unfold session? acceptRefresh
  rw [UniqueTable.find?_modify]
  split
  · rw [Option.map_map, Option.map_map]
    rfl
  · rfl

/-- What is registered after a client was removed. -/
theorem session?_erase :
    session? { s with clients := s.clients.erase clientId } clientId' =
      if clientId' = clientId then none else s.session? clientId' := by
  unfold session?
  rw [UniqueTable.find?_erase]
  split <;> rfl

/-- The lock is free when no connection is being refused. -/
theorem locked_eq_false_iff : s.locked = false ↔
    ∀ (i : ℕ) connection, s.connections[i]? = some connection → connection.phase ≠ .refused := by
  unfold locked
  rw [List.any_eq_false]
  simp only [decide_eq_true_eq]
  constructor
  · exact fun h i connection hconnection => h connection (List.mem_of_getElem? hconnection)
  · intro h connection hmem
    obtain ⟨i, hi⟩ := List.mem_iff_getElem?.mp hmem
    exact h i connection hi

/-- A step that takes the lock happens, or blocks the event loop. -/
theorem withClientsLock_induct {body : WsServer → WsServer} (hhung : P { s with hung := true })
    (hbody : s.locked = false → P (body s)) : P (s.withClientsLock body) := by
  unfold withClientsLock
  split
  · exact hhung
  · next h => exact hbody (by simpa using h)

theorem acting?_eq_some_iff {connection : Connection} :
    s.acting? i = some connection ↔ s.connections[i]? = some connection ∧
      (connection.phase = .running ∨ connection.phase = .closing) := by
  unfold acting?
  rw [Option.filter_eq_some_iff, decide_eq_true_eq]

theorem onConnection_of_none {body : Connection → WsServer} (h : s.acting? i = none) :
    s.onConnection i body = s := by
  unfold onConnection
  rw [h]

theorem onConnection_of_some {body : Connection → WsServer} {connection : Connection}
    (h : s.acting? i = some connection) : s.onConnection i body = body connection := by
  unfold onConnection
  rw [h]

/-- What a task does only happens while tasks may run. -/
theorem onConnection_induct {body : Connection → WsServer} (hs : P s)
    (hbody : ∀ connection, s.acting? i = some connection → P (body connection)) :
    P (s.onConnection i body) := by
  unfold onConnection
  split
  · exact hs
  · next connection hconnection => exact hbody connection hconnection

/-- What the `finally` block does only happens in its turn. -/
theorem onClosing_induct {body : Connection → WsServer} (hs : P s)
    (hbody : ∀ connection, s.connections[i]? = some connection → connection.phase = .closing →
      P (body connection)) : P (s.onClosing i body) := by
  unfold onClosing
  split
  · exact hs
  · next connection hconnection =>
    split
    · next hphase => exact hbody connection hconnection hphase
    · exact hs

/-- Enqueuing a message for a client has no effect, blocks the event loop, disconnects the
client or delivers the message, and then only the drops of the client may change. -/
theorem enqueueForClient_induct (hs : P s) (hhung : s.locked = true → P { s with hung := true })
    (hdisconnect : ∀ state connection, s.registration? clientId = some (state, connection) →
      s.locked = false → P (s.disconnectSlowConsumer clientId state.connection))
    (hdeliver : ∀ state connection clients queue,
      s.registration? clientId = some (state, connection) → s.locked = false →
      (∀ clientId', session? { s with clients } clientId' = s.session? clientId') →
      P ({ s with clients }.deliver state.connection connection queue message)) :
    P (s.enqueueForClient config clientId message) := by
  unfold enqueueForClient withClientsLock
  split
  · next hlocked => exact hhung hlocked
  · next hlocked =>
    rw [Bool.not_eq_true] at hlocked
    dsimp only
    split
    · exact hs
    · next state connection hregistered =>
      split
      · exact hdeliver state connection s.clients _ hregistered hlocked fun _ => rfl
      · split
        · exact hdisconnect state connection hregistered hlocked
        · refine hdeliver state connection _ _ hregistered hlocked ?_
          intro clientId'
          simp only [session?, UniqueTable.find?_modify]
          split
          · next heq =>
            subst heq
            rw [Option.map_map]
            rfl
          · rfl

/-- What enqueuing a message leaves alone. -/
@[simp] theorem enqueueForClient_router :
    (s.enqueueForClient config clientId message).router = s.router :=
  enqueueForClient_induct (P := fun s' => s'.router = s.router) rfl (fun _ => rfl)
    (fun _ _ _ _ => rfl) fun _ _ _ _ _ _ _ => rfl

/-- A property that survives the enqueuing of each message survives a fan-out. -/
theorem foldl_enqueueForClient_induct (config : WsConfig) (entries : List (String × ScoreMessage))
    (hs : P s)
    (henqueue : ∀ entry ∈ entries, ∀ s', s'.router = s.router → P s' →
      P (s'.enqueueForClient config entry.1 entry.2)) :
    P (entries.foldl (fun s entry => s.enqueueForClient config entry.1 entry.2) s) := by
  induction entries generalizing s with
  | nil => exact hs
  | cons entry entries ih =>
    refine ih (henqueue entry List.mem_cons_self s rfl hs) ?_
    intro other hother s' hrouter hs'
    rw [enqueueForClient_router] at hrouter
    exact henqueue other (List.mem_cons_of_mem _ hother) s' hrouter hs'

/-- A property that survives the enqueuing of each message of an event and the storing of the
event survives the publication. -/
theorem publishScoreUpdate_induct (hs : P s)
    (hseq : ∀ wallet assetPair, event.routed? = some (wallet, assetPair) →
      P { s with seq := s.seq + 1 })
    (henqueue : ∀ wallet assetPair s' clientId message,
      event.routed? = some (wallet, assetPair) → s'.router = s.router →
      (clientId, message) ∈ fanOut s.router event wallet assetPair (s.seq + 1) → P s' →
      P (s'.enqueueForClient config clientId message))
    (hstore : ∀ wallet assetPair s', P s' → P (s'.storeForReplay config event wallet assetPair)) :
    P (s.publishScoreUpdate config event) := by
  unfold publishScoreUpdate
  cases hrouted : event.routed? with
  | none => exact hs
  | some routed =>
    obtain ⟨wallet, assetPair⟩ := routed
    have hdone := foldl_enqueueForClient_induct config _ (hseq wallet assetPair hrouted)
      fun entry hentry s' hrouter hs' =>
        henqueue wallet assetPair s' entry.1 entry.2 hrouted hrouter hentry hs'
    dsimp only
    split
    · exact hdone
    · exact hstore _ _ _ hdone

/-- Storing an event for replay changes nothing but the replay buffer. -/
theorem storeForReplay_eq (event : ScoreEvent) (wallet assetPair : String) :
    s.storeForReplay config event wallet assetPair =
      { s with
        replayBuffer := (s.storeForReplay config event wallet assetPair).replayBuffer } := by
  unfold storeForReplay
  split <;> rfl

end WsServer

end

end LedgerLens.Streaming
