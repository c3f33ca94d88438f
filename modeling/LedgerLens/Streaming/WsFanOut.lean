import LedgerLens.Library.Runs
import LedgerLens.Library.TokenBucket
import LedgerLens.Streaming.WsServer
import Mathlib.Algebra.Order.Floor.Ring
import Mathlib.Data.Rat.Floor
import Mathlib.Tactic.NormNum

/-!
# Fan-out and replay

An event goes to the subscribers of the channel of its wallet, of the channel of its pair and
of `all`. Only the first of these loops records whom it has served, so a client of the other
two gets the event twice. The record also decides whether the event is stored for replay:
an event whose wallet nobody has subscribed to is not.

What waits in the queue of a client is sent at a limited rate. Times and tokens are exact here.
-/

namespace LedgerLens.Streaming

open Transition

/-- An event that was published. -/
structure PublishedEvent where
  /-- The event. -/
  event : ScoreEvent
  /-- Its wallet. -/
  wallet : String
  /-- Its pair of assets. -/
  assetPair : String
  /-- Its sequence number. -/
  seq : ℕ

/-- The channels to which it belongs. -/
def PublishedEvent.channels (published : PublishedEvent) : List String :=
  [walletChannel published.wallet, pairChannel published.assetPair, "all"]

/-- The message for a channel. -/
def PublishedEvent.message (published : PublishedEvent) (channel : String) : ScoreMessage :=
  ⟨published.event, published.seq, channel⟩

/-- A server with the record of the events that it has published. -/
structure PublishHistory where
  /-- The server. -/
  server : WsServer := {}
  /-- The events, in the order of their publication. -/
  published : List PublishedEvent := []

/-- A call of the router or of the server. -/
inductive PublishCall where
  /-- `PubSubRouter.subscribe`. -/
  | subscribe (clientId : String) (channels : List String)
  /-- `PubSubRouter.unsubscribe`. -/
  | unsubscribe (clientId : String) (channels : List String)
  /-- `PubSubRouter.disconnect`. -/
  | disconnect (clientId : String)
  /-- `publish_score_update`. -/
  | publish (event : ScoreEvent)
  /-- A client is registered with a new connection. -/
  | register (claims : Claims)
  /-- A client is removed. -/
  | unregister (clientId : String)
  /-- The next message of a connection is sent. -/
  | dequeue (connection : ℕ)

namespace WsServer

/-- The connection is that of the client. -/
def serves (s : WsServer) (i : ℕ) (clientId : String) : Bool :=
  (s.clients.find? clientId).any fun state => state.connection = i

/-- The messages among some entries of a fan-out that are for a connection. -/
def inbox (s : WsServer) (entries : List (String × ScoreMessage)) (i : ℕ) : List Outgoing :=
  (entries.filter fun entry => s.serves i entry.1).map fun entry => .scoreUpdate entry.2

/-- A publication enqueues the event once for each registered client that it concerns, and for
no other connection. -/
structure PublishesOnce (config : WsConfig) (s : WsServer) (event : ScoreEvent)
    (wallet assetPair : String) : Prop where
  /-- The clients of the event. -/
  once : ∀ clientId state connection, s.registration? clientId = some (state, connection) →
    clientId ∈ s.router.getClientsForEvent wallet assetPair →
      ∃ channel, ((s.publishScoreUpdate config event).connections[state.connection]?).map
        Connection.queue = some (connection.queue ++ [.scoreUpdate ⟨event, s.seq + 1, channel⟩])
  /-- The other connections. -/
  others : ∀ (i : ℕ) connection, s.connections[i]? = some connection →
    (∀ clientId ∈ s.router.getClientsForEvent wallet assetPair, s.serves i clientId = false) →
      ((s.publishScoreUpdate config event).connections[i]?).map Connection.queue =
        some connection.queue

end WsServer

namespace PublishHistory

variable (config : WsConfig)

/-- One call. -/
def step (h : PublishHistory) : PublishCall → PublishHistory
  | .subscribe clientId channels =>
    { h with server := { h.server with router := h.server.router.subscribe clientId channels } }
  | .unsubscribe clientId channels =>
    { h with server := { h.server with router := h.server.router.unsubscribe clientId channels } }
  | .disconnect clientId =>
    { h with server := { h.server with router := h.server.router.disconnect clientId } }
  | .publish event =>
    { server := h.server.publishScoreUpdate config event
      published :=
        match event.routed? with
        | none => h.published
        | some (wallet, assetPair) =>
          h.published ++ [⟨event, wallet, assetPair, h.server.seq + 1⟩] }
  | .register claims => { h with server := h.server.register claims }
  | .unregister clientId =>
    { h with server := { h.server with clients := h.server.clients.erase clientId } }
  | .dequeue i =>
    { h with
      server := h.server.updateConnection i fun connection =>
        { connection with queue := connection.queue.tail } }

/-- The last events of a channel. -/
def retained (h : PublishHistory) (channel : String) : List PublishedEvent :=
  (h.published.filter fun published => channel ∈ published.channels).rtake config.replayBufferSize

/-- A replay returns, in ascending order, what there is among the last events of the channel
from a sequence number on. -/
structure Recoverable (h : PublishHistory) : Prop where
  /-- The messages. -/
  complete : ∀ channel sinceSeq, h.server.replayBuffer.getSince channel sinceSeq =
    ((h.retained config channel).filter fun published => sinceSeq ≤ published.seq).map
      (·.message channel)
  /-- Their order. -/
  ascending : ∀ channel sinceSeq,
    (h.server.replayBuffer.getSince channel sinceSeq).Pairwise fun m m' => m.seq < m'.seq

/-- What a call is meant to do: an event is enqueued once for whom it concerns, and can be
replayed. -/
structure Lawful (h : PublishHistory) (call : PublishCall) : Prop where
  /-- The queues. -/
  once : ∀ event wallet assetPair, call = .publish event →
    event.routed? = some (wallet, assetPair) →
      h.server.PublishesOnce config event wallet assetPair
  /-- The replay buffer. -/
  recoverable : (h.step config call).Recoverable config

/-- No message of a publication meets a full queue. -/
def Roomy (h : PublishHistory) (call : PublishCall) : Prop :=
  ∀ event wallet assetPair, call = .publish event → event.routed? = some (wallet, assetPair) →
    ∀ (i : ℕ) connection, h.server.connections[i]? = some connection →
      config.clientQueueDepth = 0 ∨
        connection.queue.length + (h.server.inbox
          (fanOut h.server.router event wallet assetPair (h.server.seq + 1)) i).length ≤
            config.clientQueueDepth

/-- The condition under which a call does so: no registered client has subscribed to the pair
of the event and to `all` without the wallet, and somebody has subscribed to the wallet
unless nothing is retained. -/
def Covered (h : PublishHistory) (call : PublishCall) : Prop :=
  ∀ event wallet assetPair, call = .publish event → event.routed? = some (wallet, assetPair) →
    (∀ clientId, (h.server.registration? clientId).isSome = true →
      clientId ∈ h.server.router.getSubscribers (pairChannel assetPair) →
      clientId ∈ h.server.router.getSubscribers "all" →
        clientId ∈ h.server.router.getSubscribers (walletChannel wallet)) ∧
    (h.server.router.getSubscribers (walletChannel wallet) ≠ [] ∨ config.replayBufferSize = 0)

end PublishHistory

section

variable {config : WsConfig} {s s' s'' : WsServer} {entries entries' : List (String × ScoreMessage)}
  {entry : String × ScoreMessage} {clientId : String} {message : ScoreMessage} {i : ℕ}

namespace WsServer

theorem inbox_append :
    s.inbox (entries ++ entries') i = s.inbox entries i ++ s.inbox entries' i := by
  simp [inbox]

/-- The effect of a fan-out in which no queue is full. -/
structure FannedOut (s s' : WsServer) (entries : List (String × ScoreMessage)) : Prop where
  /-- The clients stay as they are. -/
  clients : s'.clients = s.clients
  /-- So do the subscriptions. -/
  router : s'.router = s.router
  /-- So does the sequence number. -/
  seq : s'.seq = s.seq
  /-- So does the replay buffer. -/
  replayBuffer : s'.replayBuffer = s.replayBuffer
  /-- The event loop does not block. -/
  hung : s'.hung = s.hung
  /-- Each connection gets what is for its client. -/
  connections : ∀ i : ℕ, s'.connections[i]? = (s.connections[i]?).map fun connection =>
    { connection with queue := connection.queue ++ s.inbox entries i }

/-- Fan-outs compose. -/
theorem FannedOut.trans (h : FannedOut s s' entries) (h' : FannedOut s' s'' entries') :
    FannedOut s s'' (entries ++ entries') := by
  refine ⟨h'.clients.trans h.clients, h'.router.trans h.router, h'.seq.trans h.seq,
    h'.replayBuffer.trans h.replayBuffer, h'.hung.trans h.hung, ?_⟩
  intro i
  have hinbox : s'.inbox entries' i = s.inbox entries' i := by
    unfold inbox serves
    rw [h.clients]
  rw [h'.connections, h.connections, Option.map_map, hinbox]
  congr 1
  funext connection
  simp [inbox_append]

/-- A fan-out leaves the lock free. -/
theorem FannedOut.unlocked (h : FannedOut s s' entries) (hunlocked : s.locked = false) :
    s'.locked = false := by
  rw [locked_eq_false_iff] at hunlocked ⊢
  intro i connection hconnection
  rw [h.connections] at hconnection
  obtain ⟨old, hold, rfl⟩ := Option.map_eq_some_iff.mp hconnection
  exact hunlocked i old hold

/-- Enqueuing a message for a client whose queue is not full. -/
theorem enqueueForClient_of_room (hunlocked : s.locked = false)
    (hroom : ∀ state connection, s.registration? clientId = some (state, connection) →
      config.full connection.queue = false) :
    s.enqueueForClient config clientId message =
      match s.registration? clientId with
      | none => s
      | some (state, connection) =>
        s.deliver state.connection connection (connection.queue ++ [.scoreUpdate message])
          message := by
  unfold enqueueForClient withClientsLock
  rw [if_neg (by simp [hunlocked])]
  dsimp only
  cases hregistered : s.registration? clientId with
  | none => rfl
  | some registered => exact if_pos (by simp [hroom registered.1 registered.2 hregistered])

/-- Its effect. -/
theorem fannedOut_enqueueForClient (hunlocked : s.locked = false)
    (hroom : ∀ state connection, s.registration? entry.1 = some (state, connection) →
      config.full connection.queue = false) :
    FannedOut s (s.enqueueForClient config entry.1 entry.2) [entry] := by
  have hinbox (i : ℕ) : s.inbox [entry] i =
      if s.serves i entry.1 then [.scoreUpdate entry.2] else [] := by
    unfold inbox
    cases hserves : s.serves i entry.1 <;> simp [hserves]
  rw [enqueueForClient_of_room hunlocked hroom]
  cases hregistered : s.registration? entry.1 with
  | none =>
    refine ⟨rfl, rfl, rfl, rfl, rfl, fun i => ?_⟩
    dsimp only
    cases hconnection : s.connections[i]? with
    | none => rfl
    | some connection =>
      have hserves : s.serves i entry.1 = false := by
        unfold serves
        rw [Option.any_eq_false]
        rintro state hstate
        rw [decide_eq_false_iff_not]
        rintro rfl
        have hsome := registration?_eq_some_iff.mpr ⟨hstate, hconnection⟩
        rw [hregistered] at hsome
        cases hsome
      simp [hinbox, hserves]
  | some registered =>
    obtain ⟨state, connection⟩ := registered
    obtain ⟨hstate, hconnection⟩ := registration?_eq_some_iff.mp hregistered
    refine ⟨rfl, rfl, rfl, rfl, rfl, fun i => ?_⟩
    have hserves : s.serves i entry.1 = decide (state.connection = i) := by
      unfold serves
      rw [hstate]
      rfl
    dsimp only [deliver]
    rw [getElem?_updateConnection, hinbox, hserves]
    by_cases hi : state.connection = i
    · subst hi
      simp [hconnection]
    · simp [hi]

/-- The effect of a fan-out in which no message meets a full queue. -/
theorem fannedOut_foldl (hunlocked : s.locked = false)
    (hroom : ∀ (i : ℕ) connection, s.connections[i]? = some connection →
      config.clientQueueDepth = 0 ∨
        connection.queue.length + (s.inbox entries i).length ≤ config.clientQueueDepth) :
    FannedOut s (entries.foldl (fun s entry => s.enqueueForClient config entry.1 entry.2) s)
      entries := by
  induction entries generalizing s with
  | nil => exact ⟨rfl, rfl, rfl, rfl, rfl, fun i => by simp [inbox]⟩
  | cons entry entries ih =>
    have hsplit (i : ℕ) :
        s.inbox (entry :: entries) i = s.inbox [entry] i ++ s.inbox entries i := by
      rw [← inbox_append, List.singleton_append]
    have hfirst : FannedOut s (s.enqueueForClient config entry.1 entry.2) [entry] := by
      refine fannedOut_enqueueForClient hunlocked fun state connection hregistered => ?_
      obtain ⟨hstate, hconnection⟩ := registration?_eq_some_iff.mp hregistered
      have hserves : s.serves state.connection entry.1 = true := by simp [serves, hstate]
      have hone : s.inbox [entry] state.connection = [.scoreUpdate entry.2] := by
        simp [inbox, hserves]
      unfold WsConfig.full
      obtain hzero | hle := hroom state.connection connection hconnection
      · simp [hzero]
      · rw [hsplit, hone, List.length_append, List.length_singleton] at hle
        have hnot : ¬config.clientQueueDepth ≤ connection.queue.length := by omega
        simp [hnot]
    refine hfirst.trans (ih (hfirst.unlocked hunlocked) fun i connection hconnection => ?_)
    have hinbox : (s.enqueueForClient config entry.1 entry.2).inbox entries i =
        s.inbox entries i := by
      unfold inbox serves
      rw [hfirst.clients]
    rw [hfirst.connections] at hconnection
    obtain ⟨old, hold, rfl⟩ := Option.map_eq_some_iff.mp hconnection
    refine (hroom i old hold).imp_right fun hle => ?_
    rw [hinbox]
    rw [hsplit, List.length_append] at hle
    rw [List.length_append]
    omega

/-- The effect of a publication in which no message meets a full queue. -/
theorem publishScoreUpdate_of_room {event : ScoreEvent} {wallet assetPair : String}
    (hrouted : event.routed? = some (wallet, assetPair)) (hhung : s.hung = false)
    (hunlocked : s.locked = false)
    (hroom : ∀ (i : ℕ) connection, s.connections[i]? = some connection →
      config.clientQueueDepth = 0 ∨ connection.queue.length +
        (s.inbox (fanOut s.router event wallet assetPair (s.seq + 1)) i).length ≤
          config.clientQueueDepth) :
    ∃ s', FannedOut { s with seq := s.seq + 1 } s'
        (fanOut s.router event wallet assetPair (s.seq + 1)) ∧
      s.publishScoreUpdate config event = s'.storeForReplay config event wallet assetPair := by
  have hfanned := fannedOut_foldl (s := { s with seq := s.seq + 1 }) hunlocked hroom
  refine ⟨_, hfanned, ?_⟩
  unfold publishScoreUpdate
  rw [hrouted]
  exact if_neg (by rw [hfanned.hung]; simp [hhung])

/-- Each client is registered with a connection of its own. -/
def Known (s : WsServer) : Prop :=
  ∀ clientId state, s.clients.find? clientId = some state →
    ∃ connection, s.connections[state.connection]? = some connection ∧
      connection.clientId = clientId

/-- What is for the connection of a registered client is what is for the client. -/
theorem Known.inbox_eq (h : s.Known) {state : ClientState} {connection : Connection}
    (hregistered : s.registration? clientId = some (state, connection)) :
    s.inbox entries state.connection =
      (entries.filter fun entry => entry.1 = clientId).map fun entry => .scoreUpdate entry.2 := by
  obtain ⟨hstate, hconnection⟩ := registration?_eq_some_iff.mp hregistered
  obtain ⟨found, hfound, hclient⟩ := h clientId state hstate
  obtain rfl := Option.some.inj (hconnection.symm.trans hfound)
  unfold inbox
  congr 1
  apply List.filter_congr
  intro entry _
  unfold serves
  by_cases heq : entry.1 = clientId
  · simp [heq, hstate]
  · cases hother : s.clients.find? entry.1 with
    | none => simp [heq]
    | some other =>
      have hne : other.connection ≠ state.connection := by
        intro hsame
        obtain ⟨found, hfound, hclient'⟩ := h entry.1 other hother
        rw [hsame, hconnection] at hfound
        obtain rfl := Option.some.inj hfound
        exact heq (hclient'.symm.trans hclient)
      simp [heq, hne]

end WsServer

section

variable {router : PubSubRouter} {event : ScoreEvent} {wallet assetPair : String} {seq : ℕ}

/-- The entry of a client in one of the loops of the fan-out. -/
theorem filter_map_pair {clientIds : List String} (h : clientIds.Nodup) :
    ((clientIds.map fun x => (x, message)).filter fun entry => entry.1 = clientId) =
      if clientId ∈ clientIds then [(clientId, message)] else [] := by
  rw [List.filter_map]
  have hfilter : clientIds.filter ((fun entry : String × ScoreMessage =>
      decide (entry.1 = clientId)) ∘ fun x => (x, message)) =
        List.replicate (clientIds.count clientId) clientId := List.filter_eq clientId
  rw [hfilter, h.count]
  split <;> rfl

/-- The entries of a client in a fan-out. -/
theorem filter_fanOut :
    ((fanOut router event wallet assetPair seq).filter fun entry => entry.1 = clientId) =
      if clientId ∈ router.getSubscribers (walletChannel wallet) then
        [(clientId, ⟨event, seq, walletChannel wallet⟩)]
      else
        (if clientId ∈ router.getSubscribers (pairChannel assetPair) then
          [(clientId, ⟨event, seq, pairChannel assetPair⟩)] else []) ++
        if clientId ∈ router.getSubscribers "all" then [(clientId, ⟨event, seq, "all"⟩)]
        else [] := by
  unfold fanOut
  rw [List.filter_append, List.filter_append, filter_map_pair (router.nodup_getSubscribers _),
    filter_map_pair ((router.nodup_getSubscribers _).filter _),
    filter_map_pair ((router.nodup_getSubscribers _).filter _)]
  by_cases hwallet : clientId ∈ router.getSubscribers (walletChannel wallet)
  · simp [hwallet]
  · simp [hwallet]

theorem mem_getClientsForEvent_iff :
    clientId ∈ router.getClientsForEvent wallet assetPair ↔
      clientId ∈ router.getSubscribers (walletChannel wallet) ∨
        clientId ∈ router.getSubscribers (pairChannel assetPair) ∨
          clientId ∈ router.getSubscribers "all" := by
  unfold PubSubRouter.getClientsForEvent
  rw [List.mem_union_iff, List.mem_union_iff, or_assoc]

/-- The clients in a fan-out are those of the event. -/
theorem mem_getClientsForEvent_of_mem_fanOut
    (h : (clientId, message) ∈ fanOut router event wallet assetPair seq) :
    clientId ∈ router.getClientsForEvent wallet assetPair := by
  obtain ⟨hchannel, hsubscribed, -⟩ := mem_fanOut h
  rw [← PubSubRouter.mem_getSubscribers_iff] at hsubscribed
  rw [mem_getClientsForEvent_iff]
  simp only [List.mem_cons, List.not_mem_nil, or_false] at hchannel
  rcases hchannel with heq | heq | heq <;> rw [heq] at hsubscribed
  · exact .inl hsubscribed
  · exact .inr (.inl hsubscribed)
  · exact .inr (.inr hsubscribed)

end

namespace WsServer

/-- A connection whose client the event does not concern gets nothing. -/
theorem inbox_eq_nil {event : ScoreEvent} {wallet assetPair : String} {seq : ℕ}
    (hnobody : ∀ clientId ∈ s.router.getClientsForEvent wallet assetPair,
      s.serves i clientId = false) :
    s.inbox (fanOut s.router event wallet assetPair seq) i = [] := by
  unfold inbox
  rw [List.map_eq_nil_iff, List.filter_eq_nil_iff]
  intro entry hentry
  rw [hnobody entry.1 (mem_getClientsForEvent_of_mem_fanOut hentry)]
  exact Bool.false_ne_true

/-- The queue of a connection after a publication that finds room. -/
theorem queue_publishScoreUpdate {event : ScoreEvent} {wallet assetPair : String}
    (hrouted : event.routed? = some (wallet, assetPair)) (hhung : s.hung = false)
    (hunlocked : s.locked = false)
    (hroom : ∀ (i : ℕ) connection, s.connections[i]? = some connection →
      config.clientQueueDepth = 0 ∨ connection.queue.length +
        (s.inbox (fanOut s.router event wallet assetPair (s.seq + 1)) i).length ≤
          config.clientQueueDepth)
    {connection : Connection} (hconnection : s.connections[i]? = some connection) :
    ((s.publishScoreUpdate config event).connections[i]?).map Connection.queue =
      some (connection.queue ++
        s.inbox (fanOut s.router event wallet assetPair (s.seq + 1)) i) := by
  obtain ⟨s', hfanned, hpublish⟩ := publishScoreUpdate_of_room hrouted hhung hunlocked hroom
  rw [hpublish, storeForReplay_eq]
  dsimp only
  rw [hfanned.connections]
  dsimp only
  rw [hconnection]
  rfl

/-- A publication enqueues the event once for whom it concerns, if and only if no registered
client has subscribed to the pair and to `all` without the wallet. -/
theorem publishesOnce_iff {event : ScoreEvent} {wallet assetPair : String}
    (hrouted : event.routed? = some (wallet, assetPair)) (hhung : s.hung = false)
    (hunlocked : s.locked = false) (hknown : s.Known)
    (hroom : ∀ (i : ℕ) connection, s.connections[i]? = some connection →
      config.clientQueueDepth = 0 ∨ connection.queue.length +
        (s.inbox (fanOut s.router event wallet assetPair (s.seq + 1)) i).length ≤
          config.clientQueueDepth) :
    s.PublishesOnce config event wallet assetPair ↔
      ∀ clientId, (s.registration? clientId).isSome = true →
        clientId ∈ s.router.getSubscribers (pairChannel assetPair) →
        clientId ∈ s.router.getSubscribers "all" →
          clientId ∈ s.router.getSubscribers (walletChannel wallet) := by
  constructor
  · intro honce clientId hsome hpair hall
    by_contra hwallet
    obtain ⟨⟨state, connection⟩, hregistered⟩ := Option.isSome_iff_exists.mp hsome
    have hconnection := (registration?_eq_some_iff.mp hregistered).2
    obtain ⟨channel, hgot⟩ := honce.once clientId state connection hregistered
      (mem_getClientsForEvent_iff.mpr (.inr (.inl hpair)))
    rw [queue_publishScoreUpdate hrouted hhung hunlocked hroom hconnection,
      hknown.inbox_eq hregistered, filter_fanOut, if_neg hwallet, if_pos hpair,
      if_pos hall] at hgot
    have hlength := congrArg List.length (Option.some.inj hgot)
    simp at hlength
  · intro hcond
    refine ⟨?_, ?_⟩
    · intro clientId state connection hregistered hclient
      have hconnection := (registration?_eq_some_iff.mp hregistered).2
      rw [queue_publishScoreUpdate hrouted hhung hunlocked hroom hconnection,
        hknown.inbox_eq hregistered, filter_fanOut]
      rw [mem_getClientsForEvent_iff] at hclient
      by_cases hwallet : clientId ∈ s.router.getSubscribers (walletChannel wallet)
      · exact ⟨walletChannel wallet, by simp [hwallet]⟩
      · by_cases hpair : clientId ∈ s.router.getSubscribers (pairChannel assetPair)
        · have hall : clientId ∉ s.router.getSubscribers "all" := fun hall =>
            hwallet (hcond clientId (by simp [hregistered]) hpair hall)
          exact ⟨pairChannel assetPair, by simp [hwallet, hpair, hall]⟩
        · have hall := (hclient.resolve_left hwallet).resolve_left hpair
          exact ⟨"all", by simp [hwallet, hpair, hall]⟩
    · intro i connection hconnection hnobody
      rw [queue_publishScoreUpdate hrouted hhung hunlocked hroom hconnection,
        inbox_eq_nil hnobody, List.append_nil]

end WsServer

end

section

variable {config : WsConfig} {h : PublishHistory} {call : PublishCall} {published : PublishedEvent}
  {channel : String}

/-- Appending to the last elements is as good as appending to all. -/
theorem rtake_rtake_concat {α : Type*} (n : ℕ) (l : List α) (x : α) :
    (l.rtake n ++ [x]).rtake n = (l ++ [x]).rtake n := by
  cases n with
  | zero => simp
  | succ n =>
    rw [List.rtake_concat_succ, List.rtake_concat_succ]
    simp only [List.rtake_eq_reverse_take_reverse, List.reverse_reverse, List.take_take]
    simp

/-- The last elements of an image. -/
theorem map_rtake {α β : Type*} (n : ℕ) (l : List α) (f : α → β) :
    (l.map f).rtake n = (l.rtake n).map f := by
  unfold List.rtake
  rw [List.length_map, List.map_drop]

/-- What appending a message for each of several channels leaves in the buffer of a channel. -/
theorem buffers_foldl_append {channels : List String} (hnodup : channels.Nodup) {maxSize : ℕ}
    {buffer : ReplayBuffer} {seq : ℕ} (message : String → ScoreMessage) :
    (channels.foldl (fun buffer channel => buffer.append maxSize channel seq (message channel))
      buffer).buffers channel =
        if channel ∈ channels then
          (buffer.buffers channel ++ [(seq, message channel)]).rtake maxSize
        else buffer.buffers channel := by
  induction channels generalizing buffer with
  | nil => rfl
  | cons first channels ih =>
    obtain ⟨hfirst, hrest⟩ := List.nodup_cons.mp hnodup
    rw [List.foldl_cons, ih hrest]
    by_cases heq : channel = first
    · subst heq
      simp [hfirst, ReplayBuffer.append]
    · simp [heq, ReplayBuffer.append]

/-- The channels of an event are different. -/
theorem nodup_channels (wallet assetPair : String) :
    [walletChannel wallet, pairChannel assetPair, "all"].Nodup := by
  have hchars (a b : String) (hne : a.toList ≠ b.toList) : a ≠ b := fun heq => hne (heq ▸ rfl)
  simp only [List.nodup_cons, List.mem_cons, List.not_mem_nil, or_false, not_or,
    not_false_eq_true, List.nodup_nil, and_true]
  refine ⟨⟨hchars _ _ ?_, hchars _ _ ?_⟩, hchars _ _ ?_⟩ <;> simp [walletChannel, pairChannel]

/-- What storing an event leaves in the buffer of a channel. -/
theorem buffers_storeForReplay {s : WsServer} {event : ScoreEvent} {wallet assetPair : String} :
    (s.storeForReplay config event wallet assetPair).replayBuffer.buffers channel =
      if s.router.getSubscribers (walletChannel wallet) ≠ [] ∧
          channel ∈ [walletChannel wallet, pairChannel assetPair, "all"] then
        (s.replayBuffer.buffers channel ++
          [(s.seq, (⟨event, s.seq, channel⟩ : ScoreMessage))]).rtake config.replayBufferSize
      else s.replayBuffer.buffers channel := by
  unfold WsServer.storeForReplay
  by_cases hwallet : s.router.getSubscribers (walletChannel wallet) = []
  · simp [hwallet]
  · rw [if_neg (by simpa using hwallet)]
    dsimp only
    rw [buffers_foldl_append (nodup_channels wallet assetPair)
      fun channel => (⟨event, s.seq, channel⟩ : ScoreMessage)]
    simp only [ne_eq, hwallet, not_false_eq_true, true_and]

namespace PublishHistory

/-- The invariant of a history: nobody holds the lock, clients have connections of their own,
events are numbered in the order of their publication, and the replay buffer holds what it
should. -/
structure Tracked (config : WsConfig) (h : PublishHistory) : Prop where
  /-- The event loop is not blocked. -/
  running : h.server.hung = false
  /-- Nobody holds the lock. -/
  unlocked : h.server.locked = false
  /-- The connections. -/
  known : h.server.Known
  /-- The order of the events. -/
  ordered : h.published.Pairwise fun e e' => e.seq < e'.seq
  /-- The numbers so far. -/
  numbered : ∀ published ∈ h.published, published.seq ≤ h.server.seq
  /-- The replay buffer. -/
  buffers : ∀ channel, h.server.replayBuffer.buffers channel =
    (h.retained config channel).map fun published => (published.seq, published.message channel)

/-- The last events of a channel are events of the channel. -/
theorem mem_of_mem_retained (hmem : published ∈ h.retained config channel) :
    published ∈ h.published :=
  List.mem_of_mem_filter (List.mem_of_mem_drop hmem)

/-- What the replay buffer holds can be recovered. -/
theorem Tracked.recoverable (htracked : h.Tracked config) : h.Recoverable config := by
  have hcomplete (channel : String) (sinceSeq : ℤ) :
      h.server.replayBuffer.getSince channel sinceSeq =
        ((h.retained config channel).filter fun published => sinceSeq ≤ published.seq).map
          (·.message channel) := by
    unfold ReplayBuffer.getSince
    rw [htracked.buffers, List.filter_map, List.map_map]
    rfl
  refine ⟨hcomplete, fun channel sinceSeq => ?_⟩
  rw [hcomplete, List.pairwise_map]
  refine htracked.ordered.sublist ?_
  exact List.filter_sublist.trans ((List.drop_sublist _ _).trans List.filter_sublist)

/-- The last events of a channel after one more event. -/
theorem retained_concat {server : WsServer} :
    retained config { server, published := h.published ++ [published] } channel =
      if channel ∈ published.channels then
        (h.retained config channel ++ [published]).rtake config.replayBufferSize
      else h.retained config channel := by
  unfold retained
  rw [List.filter_append]
  by_cases hmem : channel ∈ published.channels
  · simp only [hmem, decide_true, List.filter_cons_of_pos, List.filter_nil, if_true]
    rw [rtake_rtake_concat]
  · simp [hmem]

variable {event : ScoreEvent} {wallet assetPair : String}

/-- A publication adds its event to the record. -/
theorem published_step (config : WsConfig) (hrouted : event.routed? = some (wallet, assetPair)) :
    (h.step config (.publish event)).published =
      h.published ++ [⟨event, wallet, assetPair, h.server.seq + 1⟩] := by
  simp only [step, hrouted]

/-- Publishing an event keeps the invariant if there is a subscriber of its wallet, or nothing
is retained. -/
theorem Tracked.publish (htracked : h.Tracked config) (hroomy : h.Roomy config (.publish event))
    (hrouted : event.routed? = some (wallet, assetPair))
    (hstored : h.server.router.getSubscribers (walletChannel wallet) ≠ [] ∨
      config.replayBufferSize = 0) : (h.step config (.publish event)).Tracked config := by
  obtain ⟨s', hfanned, hpublish⟩ := WsServer.publishScoreUpdate_of_room hrouted htracked.running
    htracked.unlocked (hroomy event wallet assetPair rfl hrouted)
  have hstep : h.step config (.publish event) =
      { server := { s' with
          replayBuffer := (s'.storeForReplay config event wallet assetPair).replayBuffer }
        published := h.published ++ [⟨event, wallet, assetPair, h.server.seq + 1⟩] } := by
    rw [← published_step config hrouted, ← WsServer.storeForReplay_eq, ← hpublish]
    rfl
  rw [hstep]
  have hseq : s'.seq = h.server.seq + 1 := hfanned.seq
  refine ⟨hfanned.hung.trans htracked.running, hfanned.unlocked htracked.unlocked, ?_, ?_, ?_, ?_⟩
  · intro clientId state hstate
    rw [show s'.clients = h.server.clients from hfanned.clients] at hstate
    obtain ⟨connection, hconnection, hclient⟩ := htracked.known clientId state hstate
    refine ⟨_, (hfanned.connections _).trans (congrArg _ hconnection), hclient⟩
  · refine List.pairwise_append.mpr ⟨htracked.ordered, List.pairwise_singleton _ _, ?_⟩
    intro old hold new hnew
    rw [List.mem_singleton.mp hnew]
    exact Nat.lt_succ_of_le (htracked.numbered old hold)
  · intro published hmem
    dsimp only
    rw [hseq]
    obtain hold | hnew := List.mem_append.mp hmem
    · exact Nat.le_succ_of_le (htracked.numbered published hold)
    · rw [List.mem_singleton.mp hnew]
  · intro channel
    dsimp only
    rw [retained_concat, buffers_storeForReplay, hfanned.router, hfanned.replayBuffer, hseq]
    dsimp only
    rw [htracked.buffers]
    obtain hwallet | hzero := hstored
    · by_cases hmem : channel ∈ PublishedEvent.channels ⟨event, wallet, assetPair, h.server.seq + 1⟩
      · rw [if_pos ⟨hwallet, hmem⟩, if_pos hmem, ← map_rtake, List.map_append]
        rfl
      · rw [if_neg fun hboth => hmem hboth.2, if_neg hmem]
    · have hnone : h.retained config channel = [] := by simp [retained, hzero]
      rw [hnone, hzero, List.rtake_zero, List.rtake_zero, List.map_nil, ite_self, ite_self,
        List.map_nil]

/-- An event that is not stored cannot be replayed. -/
theorem Tracked.not_recoverable (htracked : h.Tracked config)
    (hroomy : h.Roomy config (.publish event))
    (hrouted : event.routed? = some (wallet, assetPair))
    (hempty : h.server.router.getSubscribers (walletChannel wallet) = [])
    (hsize : config.replayBufferSize ≠ 0) :
    ¬(h.step config (.publish event)).Recoverable config := by
  intro hrecoverable
  obtain ⟨s', hfanned, hpublish⟩ := WsServer.publishScoreUpdate_of_room hrouted htracked.running
    htracked.unlocked (hroomy event wallet assetPair rfl hrouted)
  have hbuffer : (h.step config (.publish event)).server.replayBuffer = h.server.replayBuffer := by
    change (h.server.publishScoreUpdate config event).replayBuffer = _
    rw [hpublish]
    unfold WsServer.storeForReplay
    rw [hfanned.router, if_pos (by simp [hempty])]
    exact hfanned.replayBuffer
  -- The new event is among the last ones of `all`, but its number is not in the buffer.
  have hnew := hrecoverable.complete "all" 0
  rw [hbuffer, htracked.recoverable.complete "all" 0] at hnew
  have hmem : (⟨event, wallet, assetPair, h.server.seq + 1⟩ : PublishedEvent) ∈
      (h.step config (.publish event)).retained config "all" := by
    obtain ⟨n, hn⟩ := Nat.exists_eq_succ_of_ne_zero hsize
    unfold retained
    rw [published_step config hrouted, List.filter_append, hn]
    simp [PublishedEvent.channels, List.rtake_concat_succ]
  have hmessage : (⟨event, h.server.seq + 1, "all"⟩ : ScoreMessage) ∈
      ((h.step config (.publish event)).retained config "all" |>.filter fun published =>
        (0 : ℤ) ≤ published.seq).map (·.message "all") := by
    refine List.mem_map.mpr ⟨_, List.mem_filter.mpr ⟨hmem, ?_⟩, rfl⟩
    exact decide_eq_true (Int.natCast_nonneg _)
  rw [← hnew] at hmessage
  obtain ⟨old, hold, heq⟩ := List.mem_map.mp hmessage
  have hle := htracked.numbered old (mem_of_mem_retained (List.mem_of_mem_filter hold))
  have hseq : old.seq = h.server.seq + 1 := congrArg ScoreMessage.seq heq
  omega

/-- A change of the subscriptions keeps the invariant. -/
theorem Tracked.reroute (htracked : h.Tracked config) (router : PubSubRouter) :
    { h with server := { h.server with router } }.Tracked config :=
  ⟨htracked.running, htracked.unlocked, htracked.known, htracked.ordered, htracked.numbered,
    htracked.buffers⟩

/-- The registration of a client keeps the invariant. -/
theorem Tracked.register (htracked : h.Tracked config) (claims : Claims) :
    { h with server := h.server.register claims }.Tracked config := by
  refine ⟨htracked.running, ?_, ?_, htracked.ordered, htracked.numbered, htracked.buffers⟩
  · rw [WsServer.locked_eq_false_iff]
    intro i connection hconnection
    obtain hold | ⟨-, rfl⟩ := WsServer.getElem?_concat_eq_some_iff.mp hconnection
    · exact WsServer.locked_eq_false_iff.mp htracked.unlocked i connection hold
    · exact Phase.noConfusion
  · intro clientId state hstate
    simp only [WsServer.register, UniqueTable.find?_put] at hstate
    split at hstate
    · next hclient =>
      obtain rfl := Option.some.inj hstate
      exact ⟨_, WsServer.getElem?_concat_eq_some_iff.mpr (.inr ⟨rfl, rfl⟩), hclient.symm⟩
    · obtain ⟨connection, hconnection, hclient⟩ := htracked.known clientId state hstate
      exact ⟨connection, WsServer.getElem?_concat_eq_some_iff.mpr (.inl hconnection), hclient⟩

/-- The removal of a client keeps the invariant. -/
theorem Tracked.unregister (htracked : h.Tracked config) (clientId : String) :
    { h with server := { h.server with clients := h.server.clients.erase clientId } }.Tracked
      config := by
  refine ⟨htracked.running, htracked.unlocked, ?_, htracked.ordered, htracked.numbered,
    htracked.buffers⟩
  intro clientId' state hstate
  rw [UniqueTable.find?_erase] at hstate
  split at hstate
  · cases hstate
  · exact htracked.known clientId' state hstate

/-- Sending a message keeps the invariant. -/
theorem Tracked.dequeue (htracked : h.Tracked config) (i : ℕ) :
    (h.step config (.dequeue i)).Tracked config := by
  refine ⟨htracked.running, ?_, ?_, htracked.ordered, htracked.numbered, htracked.buffers⟩
  · rw [WsServer.locked_eq_false_iff]
    intro j connection hconnection
    simp only [step, WsServer.getElem?_updateConnection] at hconnection
    obtain ⟨old, hold, rfl⟩ := Option.map_eq_some_iff.mp hconnection
    have hphase := WsServer.locked_eq_false_iff.mp htracked.unlocked j old hold
    split <;> exact hphase
  · intro clientId state hstate
    obtain ⟨connection, hconnection, hclient⟩ := htracked.known clientId state hstate
    simp only [step, WsServer.getElem?_updateConnection]
    refine ⟨_, congrArg _ hconnection, ?_⟩
    split <;> exact hclient

/-- One call keeps the invariant under the condition. -/
theorem Tracked.step (htracked : h.Tracked config) (hroomy : h.Roomy config call)
    (hcovered : h.Covered config call) : (h.step config call).Tracked config := by
  cases call with
  | subscribe clientId channels => exact htracked.reroute _
  | unsubscribe clientId channels => exact htracked.reroute _
  | disconnect clientId => exact htracked.reroute _
  | register claims => exact htracked.register claims
  | unregister clientId => exact htracked.unregister clientId
  | dequeue i => exact htracked.dequeue i
  | publish event =>
    cases hrouted : event.routed? with
    | some routed =>
      exact htracked.publish hroomy hrouted (hcovered event _ _ rfl hrouted).2
    | none =>
      have hsame : h.step config (.publish event) = h := by
        simp only [PublishHistory.step, WsServer.publishScoreUpdate, hrouted]
      rw [hsame]
      exact htracked

/-- A call is lawful exactly under the condition. -/
theorem Tracked.lawful_iff (htracked : h.Tracked config) (hroomy : h.Roomy config call) :
    h.Lawful config call ↔ h.Covered config call := by
  have honce_iff (event : ScoreEvent) (wallet assetPair : String) (hcall : call = .publish event)
      (hrouted : event.routed? = some (wallet, assetPair)) :=
    WsServer.publishesOnce_iff hrouted htracked.running htracked.unlocked htracked.known
      (hroomy event wallet assetPair hcall hrouted)
  constructor
  · intro hlawful event wallet assetPair hcall hrouted
    refine ⟨(honce_iff event wallet assetPair hcall hrouted).mp
      (hlawful.once event wallet assetPair hcall hrouted), ?_⟩
    by_contra hneither
    obtain ⟨hempty, hsize⟩ := not_or.mp hneither
    subst hcall
    exact htracked.not_recoverable hroomy hrouted (not_not.mp hempty) hsize hlawful.recoverable
  · intro hcovered
    refine ⟨?_, (htracked.step hroomy hcovered).recoverable⟩
    intro event wallet assetPair hcall hrouted
    exact (honce_iff event wallet assetPair hcall hrouted).mpr
      (hcovered event wallet assetPair hcall hrouted).1

/-- The invariant holds at the start. -/
theorem tracked_start : ({} : PublishHistory).Tracked config := by
  refine ⟨rfl, rfl, ?_, List.Pairwise.nil, ?_, ?_⟩
  · intro clientId state hstate
    cases hstate
  · intro published hmem
    cases hmem
  · intro channel
    simp [retained]

end PublishHistory

/-- As long as no queue is full, events are enqueued once for whom they concern and can be
replayed if and only if every publication meets the condition. -/
theorem meets_lawful_iff {calls : List PublishCall}
    (hroomy : Meets (PublishHistory.step config) (PublishHistory.Roomy config) {} calls) :
    Meets (PublishHistory.step config) (PublishHistory.Lawful config) {} calls ↔
      Meets (PublishHistory.step config) (PublishHistory.Covered config) {} calls := by
  have hboth : Meets (PublishHistory.step config)
      (fun h call => h.Roomy config call ∧ h.Lawful config call) {} calls ↔
        Meets (PublishHistory.step config)
          (fun h call => h.Roomy config call ∧ h.Covered config call) {} calls :=
    meets_iff_meets (PublishHistory.Tracked config)
      (fun h call htracked => and_congr_right htracked.lawful_iff)
      (fun h call htracked hcond => htracked.step hcond.1 hcond.2) PublishHistory.tracked_start
      calls
  rw [meets_and_iff, meets_and_iff] at hboth
  exact and_congr_right_iff.mp hboth hroomy

/-- A server without a bound on its queues. -/
def unboundedQueues : WsConfig := { clientQueueDepth := 0 }

/-- Without a bound no queue is ever full. -/
theorem meets_roomy_unboundedQueues (calls : List PublishCall) (h : PublishHistory) :
    Meets (PublishHistory.step unboundedQueues) (PublishHistory.Roomy unboundedQueues) h calls := by
  induction calls generalizing h with
  | nil => trivial
  | cons call calls ih => exact ⟨fun _ _ _ _ _ _ _ _ => .inl rfl, ih _⟩

/-- A score of a wallet for a pair. -/
def deskScore : ScoreEvent := ⟨some "GA", some "XLM:USDC", ""⟩

/-- A client that has subscribed to some channels when the score is published. -/
def deskCalls (channels : List String) : List PublishCall :=
  [.register ⟨some "desk", some "scores:read", some 100⟩, .subscribe "desk" channels,
    .publish deskScore]

/-- A client of the wallet and of everything gets the event once, and can recover it. -/
theorem meets_lawful_iff_wallet :
    Meets (PublishHistory.step unboundedQueues) (PublishHistory.Lawful unboundedQueues) {}
      (deskCalls ["wallet/GA", "all"]) := by
  refine (meets_lawful_iff (meets_roomy_unboundedQueues _ _)).mpr ⟨?_, ?_, ?_, trivial⟩
  · intro event wallet assetPair hcall _
    cases hcall
  · intro event wallet assetPair hcall _
    cases hcall
  · intro event wallet assetPair hcall hrouted
    cases hcall
    obtain ⟨rfl, rfl⟩ := Prod.mk.inj (Option.some.inj hrouted)
    refine ⟨fun clientId _ hpair _ => ?_, .inl ?_⟩
    · exact absurd hpair List.not_mem_nil
    · exact List.cons_ne_nil _ _

/-- A client of the pair and of everything gets the event twice, and cannot recover it. -/
theorem pair_and_all_enqueued_twice :
    Meets (PublishHistory.step unboundedQueues) (PublishHistory.Roomy unboundedQueues) {}
        (deskCalls ["pair/XLM:USDC", "all"]) ∧
      (exec (PublishHistory.step unboundedQueues) {}
          (deskCalls ["pair/XLM:USDC", "all"])).server.connections.map Connection.queue =
        [[.scoreUpdate ⟨deskScore, 1, "pair/XLM:USDC"⟩, .scoreUpdate ⟨deskScore, 1, "all"⟩]] ∧
      (exec (PublishHistory.step unboundedQueues) {}
          (deskCalls ["pair/XLM:USDC", "all"])).server.replayBuffer.getSince "all" 0 = [] ∧
      ¬Meets (PublishHistory.step unboundedQueues) (PublishHistory.Lawful unboundedQueues) {}
        (deskCalls ["pair/XLM:USDC", "all"]) := by
  refine ⟨meets_roomy_unboundedQueues _ _, by decide +kernel, by decide +kernel, ?_⟩
  rintro ⟨-, -, hlawful, -⟩
  have hcomplete := hlawful.recoverable.complete "all" 0
  have hbuffer : ((exec (PublishHistory.step unboundedQueues) {}
      (deskCalls ["pair/XLM:USDC", "all"])).server.replayBuffer.getSince "all" 0).length = 0 := by
    decide +kernel
  have hretained : (((exec (PublishHistory.step unboundedQueues) {}
      (deskCalls ["pair/XLM:USDC", "all"])).retained unboundedQueues "all" |>.filter
        fun published => (0 : ℤ) ≤ published.seq).map (·.message "all")).length = 1 := by
    decide +kernel
  have hlength := congrArg List.length hcomplete
  exact absurd (hbuffer.symm.trans (hlength.trans hretained)) (by decide)

end

/-! ### What is sent of a queue -/

namespace Outbound

/-- `TokenBucket`, of messages per second. -/
structure TokenBucket where
  rate : ℕ
  tokens : ℚ
  lastUpdate : ℚ

/-- A new bucket, which is full. -/
def TokenBucket.new (rate : ℕ) (now : ℚ) : TokenBucket where
  rate
  tokens := rate
  lastUpdate := now

/-- The tokens at a time. -/
def TokenBucket.filled (b : TokenBucket) (now : ℚ) : ℚ :=
  min b.rate (b.tokens + (now - b.lastUpdate) * b.rate)

/-- `is_allowed`. -/
def TokenBucket.isAllowed (b : TokenBucket) (now : ℚ) : Bool × TokenBucket :=
  if 1 ≤ b.filled now then
    (true, { b with tokens := b.filled now - 1, lastUpdate := now })
  else (false, { b with tokens := b.filled now, lastUpdate := now })

/-- `retry_after_ms`, for a rate that is not zero. -/
def TokenBucket.retryAfterMs (b : TokenBucket) : ℤ :=
  if 1 ≤ b.tokens then 0 else ⌊(1 - b.tokens) / b.rate * 1000⌋ + 1

/-- A message that is taken from the queue of a client. -/
structure Dequeued where
  time : ℚ
  message : Outgoing
  /-- Sending it raises. -/
  fails : Bool

/-- What a client gets for it. -/
inductive Response where
  | sent
  /-- The `ErrorMessage` with `code="rate_limit"`. -/
  | rateLimit (retryAfterMs : ℤ)
  deriving DecidableEq

/-- `_process_outbound`: what was taken from the queue, with what the client got for it. -/
def processOutbound : TokenBucket → List Dequeued → List (Dequeued × Response)
  | _, [] => []
  | b, m :: queue =>
    let (allowed, b) := b.isAllowed m.time
    if allowed then
      if m.fails then [] else (m, .sent) :: processOutbound b queue
    else (m, .rateLimit b.retryAfterMs) :: processOutbound b queue

/-- The times of the messages do not go back. -/
def InOrder (start : ℚ) (queue : List Dequeued) : Prop :=
  (∀ m ∈ queue, start ≤ m.time) ∧ queue.Pairwise fun m later => m.time ≤ later.time

/-- The messages that are sent in an interval. -/
def sentIn (t₁ t₂ : ℚ) (run : List (Dequeued × Response)) : List (Dequeued × Response) :=
  run.filter fun r => r.2 = .sent ∧ t₁ ≤ r.1.time ∧ r.1.time ≤ t₂

variable {b : TokenBucket} {m : Dequeued} {queue : List Dequeued}

/-- One turn of the loop. -/
theorem processOutbound_cons (b : TokenBucket) (m : Dequeued) (queue : List Dequeued) :
    1 ≤ b.filled m.time ∧ m.fails = true ∧ processOutbound b (m :: queue) = [] ∨
    1 ≤ b.filled m.time ∧ processOutbound b (m :: queue) = (m, .sent) ::
      processOutbound { b with tokens := b.filled m.time - 1, lastUpdate := m.time } queue ∨
    b.filled m.time < 1 ∧ processOutbound b (m :: queue) =
      (m, .rateLimit (⌊(1 - b.filled m.time) / b.rate * 1000⌋ + 1)) ::
        processOutbound { b with tokens := b.filled m.time, lastUpdate := m.time } queue := by
  rw [processOutbound]
  unfold TokenBucket.isAllowed
  by_cases hfilled : 1 ≤ b.filled m.time
  · rw [if_pos hfilled]
    dsimp only
    rw [if_pos rfl]
    by_cases hfails : m.fails = true
    · exact Or.inl ⟨hfilled, hfails, if_pos hfails⟩
    · exact Or.inr (Or.inl ⟨hfilled, if_neg hfails⟩)
  · rw [if_neg hfilled]
    dsimp only
    rw [if_neg Bool.false_ne_true]
    refine Or.inr (Or.inr ⟨not_le.mp hfilled, ?_⟩)
    unfold TokenBucket.retryAfterMs
    dsimp only
    rw [if_neg hfilled]

/-- The messages that are answered are the first ones of the queue. -/
theorem processOutbound_initial (b : TokenBucket) (queue : List Dequeued) :
    ((processOutbound b queue).map Prod.fst) <+: queue := by
  induction queue generalizing b with
  | nil => exact List.prefix_refl _
  | cons m queue ih =>
    obtain ⟨-, -, h⟩ | ⟨-, h⟩ | ⟨-, h⟩ := processOutbound_cons b m queue
    · rw [h]
      exact List.nil_prefix
    · rw [h, List.map_cons]
      exact (List.prefix_cons_inj m).mpr (ih _)
    · rw [h, List.map_cons]
      exact (List.prefix_cons_inj m).mpr (ih _)

/-- Without a failure all messages are answered. -/
theorem processOutbound_all (b : TokenBucket) {queue : List Dequeued}
    (h : ∀ m ∈ queue, m.fails = false) : (processOutbound b queue).map Prod.fst = queue := by
  induction queue generalizing b with
  | nil => rfl
  | cons m queue ih =>
    obtain ⟨hm, hqueue⟩ := List.forall_mem_cons.mp h
    obtain ⟨-, hfails, -⟩ | ⟨-, h⟩ | ⟨-, h⟩ := processOutbound_cons b m queue
    · exact absurd (hm.symm.trans hfails) Bool.false_ne_true
    · rw [h, List.map_cons, ih _ hqueue]
    · rw [h, List.map_cons, ih _ hqueue]

/-- What is taken out of the bucket. -/
def taken (run : List (Dequeued × Response)) : List (ℚ × ℚ) :=
  run.map fun r => (r.1.time, if r.2 = .sent then 1 else 0)

theorem length_sentIn (t₁ t₂ : ℚ) (run : List (Dequeued × Response)) :
    ((sentIn t₁ t₂ run).length : ℚ) = TokenBucket.total t₁ t₂ (taken run) := by
  induction run with
  | nil => simp [sentIn, taken]
  | cons r run ih =>
    unfold sentIn taken at ih ⊢
    rw [List.map_cons, TokenBucket.total_cons, ← ih, List.filter_cons]
    by_cases hsent : r.2 = .sent
    · by_cases hin : t₁ ≤ r.1.time ∧ r.1.time ≤ t₂
      · simp [hsent, hin, add_comm]
      · simp [hsent, hin]
    · simp [hsent]

theorem filled_nonneg (htokens : 0 ≤ b.tokens) {now : ℚ} (hnow : b.lastUpdate ≤ now) :
    0 ≤ b.filled now :=
  le_min (Nat.cast_nonneg _)
    (add_nonneg htokens (mul_nonneg (sub_nonneg.mpr hnow) (Nat.cast_nonneg _)))

/-- The bucket is not overdrawn. -/
theorem spends_processOutbound (b : TokenBucket) (htokens : 0 ≤ b.tokens)
    (horder : InOrder b.lastUpdate queue) :
    TokenBucket.Spends (b.rate : ℚ) b.rate b.tokens b.lastUpdate
      (taken (processOutbound b queue)) := by
  induction queue generalizing b with
  | nil => exact .nil htokens
  | cons m queue ih =>
    obtain ⟨hlater, hpairwise⟩ := horder
    obtain ⟨hm, hqueue⟩ := List.pairwise_cons.mp hpairwise
    have hnow := hlater m List.mem_cons_self
    have hfilled := filled_nonneg htokens hnow
    have hle : b.filled m.time ≤ b.tokens + b.rate * (m.time - b.lastUpdate) :=
      (min_le_right _ _).trans_eq (by rw [mul_comm])
    have hcap : b.filled m.time ≤ b.rate := min_le_left _ _
    obtain ⟨-, -, h⟩ | ⟨hone, h⟩ | ⟨-, h⟩ := processOutbound_cons b m queue
    · rw [h]
      exact .nil htokens
    · rw [h]
      have hrest := ih { b with tokens := b.filled m.time - 1, lastUpdate := m.time }
        (sub_nonneg.mpr hone) ⟨hm, hqueue⟩
      refine .cons hnow htokens (sub_nonneg.mpr hone) ?_ ?_ hrest
      · rw [if_pos rfl, sub_add_cancel]
        exact hcap
      · rw [if_pos rfl, sub_add_cancel]
        exact hle
    · rw [h]
      have hrest := ih { b with tokens := b.filled m.time, lastUpdate := m.time } hfilled
        ⟨hm, hqueue⟩
      refine .cons hnow htokens hfilled ?_ ?_ hrest
      · rw [if_neg (by simp), add_zero]
        exact hcap
      · rw [if_neg (by simp), add_zero]
        exact hle

/-- When a bucket has a token again. -/
theorem one_le_filled_iff (hrate : 0 < b.rate) (now : ℚ) :
    1 ≤ b.filled now ↔ (1 - b.tokens) / b.rate ≤ now - b.lastUpdate := by
  have hone : (1 : ℚ) ≤ b.rate := Nat.one_le_cast.mpr hrate
  unfold TokenBucket.filled
  rw [le_min_iff, and_iff_right hone, div_le_iff₀ (zero_lt_one.trans_le hone)]
  exact sub_le_iff_le_add'.symm

/-- The first message after one that was refused. -/
theorem first_after_refusal (hrate : 0 < b.rate) {after : List (Dequeued × Response)}
    {next : Dequeued} {r : Response} (h : processOutbound b queue = (next, r) :: after) :
    (b.lastUpdate + ((⌊(1 - b.tokens) / b.rate * 1000⌋ + 1 : ℤ) : ℚ) / 1000 ≤ next.time →
        r = .sent) ∧
      (next.time < b.lastUpdate + (((⌊(1 - b.tokens) / b.rate * 1000⌋ + 1 : ℤ) : ℚ) - 1) / 1000 →
        r ≠ .sent) := by
  cases queue with
  | nil => cases h
  | cons m queue =>
    have hfloor := Int.floor_le ((1 - b.tokens) / b.rate * 1000)
    have hlt := Int.lt_floor_add_one ((1 - b.tokens) / b.rate * 1000)
    push_cast
    obtain ⟨-, -, hrun⟩ | ⟨hone, hrun⟩ | ⟨hone, hrun⟩ := processOutbound_cons b m queue
    · cases hrun.symm.trans h
    · obtain ⟨⟨rfl, rfl⟩, -⟩ := List.cons.inj (hrun.symm.trans h) |>.imp_left Prod.mk.inj
      rw [one_le_filled_iff hrate] at hone
      refine ⟨fun _ => rfl, fun hearly => ?_⟩
      linarith
    · obtain ⟨⟨rfl, rfl⟩, -⟩ := List.cons.inj (hrun.symm.trans h) |>.imp_left Prod.mk.inj
      rw [← not_le, one_le_filled_iff hrate, not_le] at hone
      refine ⟨fun hlate => ?_, fun _ hsent => by cases hsent⟩
      linarith

/-- A message after one that was refused is sent if it comes late enough, and not if it is more than
a millisecond too early. -/
theorem next_after_refusal (hrate : 0 < b.rate) {before after : List (Dequeued × Response)}
    {m next : Dequeued} {ms : ℤ} {r : Response}
    (h : processOutbound b queue = before ++ (m, .rateLimit ms) :: (next, r) :: after) :
    (m.time + (ms : ℚ) / 1000 ≤ next.time → r = .sent) ∧
      (next.time < m.time + ((ms : ℚ) - 1) / 1000 → r ≠ .sent) := by
  induction queue generalizing b before with
  | nil => simp [processOutbound] at h
  | cons m' queue ih =>
    obtain ⟨-, -, hrun⟩ | ⟨-, hrun⟩ | ⟨-, hrun⟩ := processOutbound_cons b m' queue
    · simp [hrun] at h
    · cases before with
      | nil =>
        obtain ⟨hfirst, -⟩ := List.cons.inj (hrun.symm.trans h)
        cases hfirst
      | cons _ before =>
        exact ih (by exact hrate) (List.cons.inj (hrun.symm.trans h)).2
    · cases before with
      | nil =>
        obtain ⟨hfirst, hrest⟩ := List.cons.inj (hrun.symm.trans h)
        obtain ⟨rfl, hms⟩ := Prod.mk.inj hfirst
        obtain rfl := Response.rateLimit.inj hms
        exact first_after_refusal (by exact hrate) hrest
      | cons _ before =>
        exact ih (by exact hrate) (List.cons.inj (hrun.symm.trans h)).2

end Outbound

end LedgerLens.Streaming
