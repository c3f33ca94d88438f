import LedgerLens.Library.TwoWayIndex
import Mathlib.Data.List.Lattice

/-!
# The publish/subscribe router

`PubSubRouter` keeps the subscriptions twice: the channels of each client and the clients of
each channel. A client without an entry and a client with an empty entry are the same here.
-/

namespace LedgerLens.Streaming

/-- `PubSubRouter`: clients are related to the channels that they have subscribed to. -/
structure PubSubRouter where
  /-- `_subscriptions` and `_channel_subscribers`. -/
  index : TwoWayIndex String String := .empty

/-- `wallet/` and a wallet's id. -/
def walletChannel (walletId : String) : String := "wallet/" ++ walletId

/-- `pair/` and a pair of assets. -/
def pairChannel (assetPair : String) : String := "pair/" ++ assetPair

namespace PubSubRouter

/-- `subscribe`. -/
def subscribe (router : PubSubRouter) (clientId : String) (channels : List String) :
    PubSubRouter where
  index := channels.foldl (fun index channel => index.link clientId channel) router.index

/-- `unsubscribe`. -/
def unsubscribe (router : PubSubRouter) (clientId : String) (channels : List String) :
    PubSubRouter where
  index := channels.foldl (fun index channel => index.unlink clientId channel) router.index

/-- `disconnect`. -/
def disconnect (router : PubSubRouter) (clientId : String) : PubSubRouter where
  index := router.index.forget clientId

/-- `get_subscribers`. -/
def getSubscribers (router : PubSubRouter) (channel : String) : List String :=
  router.index.preimage channel

/-- `get_subscriptions`. -/
def getSubscriptions (router : PubSubRouter) (clientId : String) : List String :=
  router.index.image clientId

/-- `get_clients_for_event`. -/
def getClientsForEvent (router : PubSubRouter) (walletId assetPair : String) : List String :=
  router.getSubscribers (walletChannel walletId) ∪ router.getSubscribers (pairChannel assetPair) ∪
    router.getSubscribers "all"

variable {router : PubSubRouter} {clientId clientId' channel : String} {channels : List String}

theorem nodup_getSubscribers (router : PubSubRouter) (channel : String) :
    (router.getSubscribers channel).Nodup :=
  router.index.nodup channel

/-- The two directions agree. -/
theorem mem_getSubscribers_iff :
    clientId ∈ router.getSubscribers channel ↔ channel ∈ router.getSubscriptions clientId :=
  (router.index.mirrored clientId channel).symm

@[simp] theorem getSubscriptions_empty : ({} : PubSubRouter).getSubscriptions clientId = [] := rfl

@[simp] theorem mem_getSubscriptions_subscribe :
    channel ∈ (router.subscribe clientId channels).getSubscriptions clientId' ↔
      (clientId' = clientId ∧ channel ∈ channels) ∨ channel ∈ router.getSubscriptions clientId' :=
  TwoWayIndex.mem_image_foldl_link

@[simp] theorem mem_getSubscriptions_unsubscribe :
    channel ∈ (router.unsubscribe clientId channels).getSubscriptions clientId' ↔
      channel ∈ router.getSubscriptions clientId' ∧
        ¬(clientId' = clientId ∧ channel ∈ channels) :=
  TwoWayIndex.mem_image_foldl_unlink

@[simp] theorem mem_getSubscriptions_disconnect :
    channel ∈ (router.disconnect clientId).getSubscriptions clientId' ↔
      channel ∈ router.getSubscriptions clientId' ∧ clientId' ≠ clientId :=
  TwoWayIndex.mem_image_forget

end PubSubRouter

end LedgerLens.Streaming
