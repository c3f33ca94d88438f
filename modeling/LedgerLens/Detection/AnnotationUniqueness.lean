import LedgerLens.Detection.AnnotationQueue
import LedgerLens.Library.Runs
import Mathlib.Data.List.Perm.Basic

/-!
# One item for each wallet

The operations on the queue change the first item of a wallet only. This file shows in which runs
each wallet has one item, so that no batch has a wallet twice or one that was handled: those in
which no push adds a wallet twice.
-/

namespace LedgerLens.Detection.ActiveLearning

open Transition

/-- A call of the queue. -/
inductive QueueCall where
  /-- `push`. -/
  | push (call : PushCall) (written : Bool)
  /-- `annotate`. -/
  | annotate (call : AnnotateCall) (written : Bool)
  /-- `multi_annotate`. -/
  | multiAnnotate (call : AnnotateCall) (written : Bool)
  /-- `skip`. -/
  | skip (wallet : String) (written : Bool)

/-- The file, and the wallets that were annotated or skipped since they were queued. -/
structure QueueRun where
  /-- The items. -/
  queue : List QueueItem := []
  /-- The wallets. -/
  handled : List String := []

namespace QueueRun

/-- The wallets of the items. -/
def wallets (s : QueueRun) : List String := s.queue.map QueueItem.wallet

/-- The queue and the wallets handled after an operation. What raises changes nothing. -/
def after (s : QueueRun) (result : Except QueueError (List QueueItem)) (handled : List String) :
    QueueRun :=
  match result with
  | .ok queue => { queue := queue, handled := handled }
  | .error _ => s

/-- One call. -/
def step (secret : String) (aleatoricThreshold : ℚ) (s : QueueRun) : QueueCall → QueueRun
  | .push call written => s.after (push aleatoricThreshold call written s.queue) s.handled
  | .annotate call written =>
    s.after (annotate secret call written s.queue) (call.wallet :: s.handled)
  | .multiAnnotate call written =>
    s.after (multiAnnotate secret call written s.queue) (call.wallet :: s.handled)
  | .skip wallet written =>
    s.after (skip wallet written s.queue)
      (if wallet ∈ s.wallets then wallet :: s.handled else s.handled)

/-- Each wallet has one item, and no batch has a wallet twice or one that was handled. -/
structure OnePerWallet (s : QueueRun) : Prop where
  /-- Items. -/
  unique : s.wallets.Nodup
  /-- Batches. -/
  popped : ∀ n, ((popBatch n s.queue).map QueueItem.wallet).Nodup ∧
    ∀ item ∈ popBatch n s.queue, item.wallet ∉ s.handled

/-- A push that is written adds no wallet twice. -/
def AddsOnce (aleatoricThreshold : ℚ) (s : QueueRun) : QueueCall → Prop
  | .push call written => written = true → (call.added aleatoricThreshold s.queue).Nodup
  | _ => True

/-- What the operations keep: each wallet has one item, those that were handled have one that is
not pending, and pending items have no annotations. -/
structure Kept (s : QueueRun) : Prop where
  /-- Items. -/
  unique : s.wallets.Nodup
  /-- Wallets that were handled. -/
  listed : ∀ wallet ∈ s.handled, wallet ∈ s.wallets
  /-- Their items. -/
  settled : ∀ item ∈ s.queue, item.wallet ∈ s.handled → item.status ≠ .pending
  /-- Pending items. -/
  untouched : ∀ item ∈ s.queue, item.status = .pending → item.annotations = []

end QueueRun

section

variable {wallet : String} {f : QueueItem → QueueItem} {queue queue' : List QueueItem}

theorem updateFirst_eq_none_iff :
    updateFirst wallet f queue = none ↔ wallet ∉ queue.map QueueItem.wallet := by
  induction queue with
  | nil => simp [updateFirst]
  | cons item rest ih =>
    unfold updateFirst
    split_ifs with hwallet
    · simp [hwallet]
    · simp [ih, Ne.symm hwallet]

theorem exists_updateFirst_eq (f : QueueItem → QueueItem)
    (h : wallet ∈ queue.map QueueItem.wallet) :
    ∃ queue', updateFirst wallet f queue = some queue' :=
  Option.ne_none_iff_exists'.mp fun hnone => updateFirst_eq_none_iff.mp hnone h

/-- A change that keeps wallets keeps those of all items. -/
theorem map_wallet_updateFirst (hf : ∀ item, (f item).wallet = item.wallet)
    (h : updateFirst wallet f queue = some queue') :
    queue'.map QueueItem.wallet = queue.map QueueItem.wallet := by
  induction queue generalizing queue' with
  | nil => cases h
  | cons item rest ih =>
    unfold updateFirst at h
    split_ifs at h with hwallet
    · cases h
      rw [List.map_cons, List.map_cons, hf]
    · obtain ⟨rest', hrest, rfl⟩ := Option.map_eq_some_iff.mp h
      rw [List.map_cons, List.map_cons, ih hrest]

/-- If each wallet has one item, all items after a change are changed or of other wallets. -/
theorem mem_updateFirst (hnodup : (queue.map QueueItem.wallet).Nodup)
    (h : updateFirst wallet f queue = some queue') {item : QueueItem} (hitem : item ∈ queue') :
    (item ∈ queue ∧ item.wallet ≠ wallet) ∨ ∃ old ∈ queue, old.wallet = wallet ∧ item = f old := by
  induction queue generalizing queue' with
  | nil => cases h
  | cons head rest ih =>
    rw [List.map_cons, List.nodup_cons] at hnodup
    unfold updateFirst at h
    split_ifs at h with hwallet
    · cases h
      obtain rfl | hitem := List.mem_cons.mp hitem
      · exact .inr ⟨head, List.mem_cons_self, hwallet, rfl⟩
      · refine .inl ⟨List.mem_cons_of_mem _ hitem, fun heq => hnodup.1 ?_⟩
        rw [hwallet, ← heq]
        exact List.mem_map_of_mem hitem
    · obtain ⟨rest', hrest, rfl⟩ := Option.map_eq_some_iff.mp h
      obtain rfl | hitem := List.mem_cons.mp hitem
      · exact .inl ⟨List.mem_cons_self, hwallet⟩
      · obtain ⟨hmem, hne⟩ | ⟨old, hold, hchanged⟩ := ih hnodup.2 hrest hitem
        · exact .inl ⟨List.mem_cons_of_mem _ hmem, hne⟩
        · exact .inr ⟨old, List.mem_cons_of_mem _ hold, hchanged⟩

theorem sliceTo_sublist {α : Type} (n : ℤ) (items : List α) : (sliceTo n items).Sublist items := by
  unfold sliceTo
  split_ifs
  · exact List.take_sublist _ _
  · exact List.take_sublist _ _

theorem atomicWrite_eq_ok {written : Bool} {data : List QueueItem}
    (h : atomicWrite written data = .ok queue') : queue' = data := by
  unfold atomicWrite at h
  split_ifs at h
  exact (Except.ok.inj h).symm

/-- What an annotation that is written does: it changes the first item of the wallet, or it adds
one. -/
theorem annotate_eq_ok {secret : String} {call : AnnotateCall} {written : Bool}
    (h : annotate secret call written queue = .ok queue') :
    updateFirst call.wallet (·.withVerdict (call.verdict secret)) queue = some queue' ∨
      call.wallet ∉ queue.map QueueItem.wallet ∧
        queue' = queue ++ [(call.item .annotated).withVerdict (call.verdict secret)] := by
  unfold annotate at h
  cases hcheck : call.check with
  | error e =>
    rw [hcheck] at h
    cases h
  | ok u =>
    rw [hcheck] at h
    simp only [bind, Except.bind] at h
    split at h
    · rename_i updated hupdated
      rw [atomicWrite_eq_ok h]
      exact .inl hupdated
    · rename_i hnone
      exact .inr ⟨updateFirst_eq_none_iff.mp hnone, atomicWrite_eq_ok h⟩

/-- What one more annotation does: the annotator has labelled the wallet before, or it changes the
first item of the wallet, or it adds one. -/
theorem multiAnnotate_eq_ok {secret : String} {call : AnnotateCall} {written : Bool}
    (h : multiAnnotate secret call written queue = .ok queue') :
    (queue' = queue ∧ ∃ item ∈ queue, item.wallet = call.wallet ∧ item.annotations ≠ []) ∨
      updateFirst call.wallet (appendEntry secret (call.entry secret)) queue =
        some queue' ∨
      call.wallet ∉ queue.map QueueItem.wallet ∧
        queue' = queue ++
          [{ call.item .multiAnnotated with annotations := [call.entry secret] }] := by
  unfold multiAnnotate at h
  cases hcheck : call.check with
  | error e =>
    rw [hcheck] at h
    cases h
  | ok u =>
    rw [hcheck] at h
    simp only [bind, Except.bind] at h
    split at h
    · rename_i item hfind
      have hitem := List.mem_of_find?_eq_some hfind
      have hwallet : item.wallet = call.wallet := by simpa using List.find?_some hfind
      split_ifs at h with hany
      · obtain rfl := Except.ok.inj h
        refine .inl ⟨rfl, item, hitem, hwallet, fun hnil => ?_⟩
        rw [hnil] at hany
        cases hany
      · have hmem : call.wallet ∈ queue.map QueueItem.wallet :=
          List.mem_map.mpr ⟨item, hitem, hwallet⟩
        obtain ⟨updated, hupdated⟩ := exists_updateFirst_eq
          (appendEntry secret (call.entry secret)) hmem
        rw [hupdated] at h
        rw [atomicWrite_eq_ok h]
        exact .inr (.inl hupdated)
    · rename_i hnone
      refine .inr (.inr ⟨?_, atomicWrite_eq_ok h⟩)
      intro hmem
      obtain ⟨item, hitem, hwallet⟩ := List.mem_map.mp hmem
      exact absurd hwallet (by simpa using List.find?_eq_none.mp hnone item hitem)

/-- An item with one more annotation is of the same wallet and not pending. -/
theorem appendEntry_spec (secret : String) (entry : AnnotationEntry) (item : QueueItem) :
    (appendEntry secret entry item).wallet = item.wallet ∧
      (appendEntry secret entry item).status ≠ .pending := by
  unfold appendEntry refreshAgreementStatus
  dsimp only
  split_ifs <;> simp

/-- A batch is a part of the pending items, in another order. -/
theorem popBatch_subperm (n : ℤ) (queue : List QueueItem) :
    (popBatch n queue).Subperm (queue.filter (·.status = .pending)) := by
  unfold popBatch
  dsimp only
  set pending := queue.filter (·.status = .pending) with hpending
  have hunranked : pending.filter (·.epistemicUncertainty.isNone) =
      pending.filter (!·.epistemicUncertainty.isSome) := by
    congr 1
    funext item
    simp
  have hperm : (((pending.filter (·.epistemicUncertainty.isSome)).mergeSort fun a b =>
      b.epistemicUncertainty.getD 0 ≤ a.epistemicUncertainty.getD 0) ++
        pending.filter (·.epistemicUncertainty.isNone)).Perm pending := by
    rw [hunranked]
    exact ((List.mergeSort_perm _ _).append_right _).trans (List.filter_append_perm _ _)
  exact (sliceTo_sublist n _).subperm.trans hperm.subperm

end

namespace QueueRun

variable {secret : String} {aleatoricThreshold : ℚ} {s : QueueRun}

/-- The wallets after a push. -/
theorem wallets_push (call : PushCall) :
    wallets { s with queue := s.queue ++ (call.added aleatoricThreshold s.queue).map call.item } =
      s.wallets ++ call.added aleatoricThreshold s.queue := by
  rw [wallets, wallets, List.map_append, List.map_map]
  congr 1
  exact (List.map_congr_left fun wallet _ => rfl).trans (List.map_id _)

theorem Kept.onePerWallet (h : s.Kept) : s.OnePerWallet := by
  refine ⟨h.unique, fun n => ⟨?_, fun item hitem hhandled => ?_⟩⟩
  · have hpending : ((s.queue.filter (·.status = .pending)).map QueueItem.wallet).Nodup :=
      h.unique.sublist (List.filter_sublist.map _)
    obtain ⟨batch, hperm, hsublist⟩ := popBatch_subperm n s.queue
    exact (hperm.map _).nodup_iff.mp (hpending.sublist (hsublist.map _))
  · have hpending := List.mem_filter.mp ((popBatch_subperm n s.queue).subset hitem)
    exact h.settled item hpending.1 hhandled (of_decide_eq_true hpending.2)

/-- The first item of a wallet is changed to one that is not pending. -/
theorem Kept.updated (h : s.Kept) {wallet : String} {f : QueueItem → QueueItem}
    {queue : List QueueItem} (hqueue : updateFirst wallet f s.queue = some queue)
    (hwallet : ∀ item, (f item).wallet = item.wallet)
    (hstatus : ∀ item, (f item).status ≠ .pending) :
    Kept { queue := queue, handled := wallet :: s.handled } := by
  have hwallets := map_wallet_updateFirst hwallet hqueue
  have hmem : wallet ∈ s.wallets := by
    by_contra hnone
    rw [wallets, ← updateFirst_eq_none_iff (f := f), hqueue] at hnone
    cases hnone
  constructor
  · rw [wallets, hwallets]
    exact h.unique
  · intro w hw
    rw [wallets, hwallets]
    obtain rfl | hw := List.mem_cons.mp hw
    · exact hmem
    · exact h.listed w hw
  · intro item hitem hhandled
    obtain ⟨hold, hne⟩ | ⟨old, -, -, rfl⟩ := mem_updateFirst h.unique hqueue hitem
    · exact h.settled item hold ((List.mem_cons.mp hhandled).resolve_left hne)
    · exact hstatus old
  · intro item hitem hpending
    obtain ⟨hold, -⟩ | ⟨old, -, -, rfl⟩ := mem_updateFirst h.unique hqueue hitem
    · exact h.untouched item hold hpending
    · exact absurd hpending (hstatus old)

/-- An item that is not pending is added for a new wallet. -/
theorem Kept.appended (h : s.Kept) (item : QueueItem) (hnew : item.wallet ∉ s.wallets)
    (hstatus : item.status ≠ .pending) :
    Kept { queue := s.queue ++ [item], handled := item.wallet :: s.handled } := by
  constructor
  · rw [wallets, List.map_append]
    exact List.nodup_append.mpr ⟨h.unique, List.nodup_singleton _, fun a ha b hb heq =>
      hnew (by rwa [heq, List.mem_singleton.mp hb] at ha)⟩
  · intro w hw
    rw [wallets, List.map_append, List.mem_append]
    obtain rfl | hw := List.mem_cons.mp hw
    · exact .inr (List.mem_singleton_self _)
    · exact .inl (h.listed w hw)
  · intro x hx hhandled
    obtain hx | hx := List.mem_append.mp hx
    · refine h.settled x hx ((List.mem_cons.mp hhandled).resolve_left fun heq => hnew ?_)
      exact heq ▸ List.mem_map_of_mem hx
    · rw [List.mem_singleton.mp hx]
      exact hstatus
  · intro x hx hpending
    obtain hx | hx := List.mem_append.mp hx
    · exact h.untouched x hx hpending
    · rw [List.mem_singleton.mp hx] at hpending
      exact absurd hpending hstatus

/-- A push keeps everything if it adds no wallet twice. -/
theorem Kept.pushed (h : s.Kept) {call : PushCall}
    (hadded : (call.added aleatoricThreshold s.queue).Nodup) :
    Kept { s with queue := s.queue ++ (call.added aleatoricThreshold s.queue).map call.item } := by
  have hnew : ∀ wallet ∈ call.added aleatoricThreshold s.queue, wallet ∉ s.wallets := by
    intro wallet hwallet
    exact (of_decide_eq_true (List.mem_filter.mp hwallet).2).1
  constructor
  · rw [wallets_push]
    exact List.nodup_append.mpr ⟨h.unique, hadded, fun a ha b hb heq => hnew b hb (heq ▸ ha)⟩
  · intro w hw
    rw [wallets_push]
    exact List.mem_append_left _ (h.listed w hw)
  · intro item hitem hhandled
    obtain hitem | hitem := List.mem_append.mp hitem
    · exact h.settled item hitem hhandled
    · obtain ⟨wallet, hwallet, rfl⟩ := List.mem_map.mp hitem
      exact absurd (h.listed wallet hhandled) (hnew wallet hwallet)
  · intro item hitem hpending
    obtain hitem | hitem := List.mem_append.mp hitem
    · exact h.untouched item hitem hpending
    · obtain ⟨wallet, -, rfl⟩ := List.mem_map.mp hitem
      rfl

/-- A wallet whose item is not pending is handled again, without a change to the queue. -/
theorem Kept.handledAgain (h : s.Kept) {wallet : String} {item : QueueItem}
    (hitem : item ∈ s.queue) (hwallet : item.wallet = wallet) (hstatus : item.status ≠ .pending) :
    Kept { queue := s.queue, handled := wallet :: s.handled } := by
  refine ⟨h.unique, fun w hw => ?_, fun x hx hhandled => ?_, h.untouched⟩
  · obtain rfl | hw := List.mem_cons.mp hw
    · exact hwallet ▸ List.mem_map_of_mem hitem
    · exact h.listed w hw
  · obtain heq | hhandled := List.mem_cons.mp hhandled
    · rwa [List.inj_on_of_nodup_map h.unique hx hitem (heq.trans hwallet.symm)]
    · exact h.settled x hx hhandled

/-- An annotation keeps everything. -/
theorem Kept.annotated (h : s.Kept) (call : AnnotateCall) (written : Bool) :
    Kept (s.after (annotate secret call written s.queue) (call.wallet :: s.handled)) := by
  cases hresult : annotate secret call written s.queue with
  | error e => exact h
  | ok queue =>
    obtain hqueue | ⟨hnone, rfl⟩ := annotate_eq_ok hresult
    · exact h.updated hqueue (fun _ => rfl) fun _ hpending => by cases hpending
    · exact h.appended _ hnone fun hpending => by cases hpending

/-- One more annotation keeps everything. A wallet that the annotator has labelled before is not
pending. -/
theorem Kept.multiAnnotated (h : s.Kept) (call : AnnotateCall) (written : Bool) :
    Kept (s.after (multiAnnotate secret call written s.queue) (call.wallet :: s.handled)) := by
  cases hresult : multiAnnotate secret call written s.queue with
  | error e => exact h
  | ok queue =>
    obtain ⟨rfl, item, hitem, hwallet, hne⟩ | hqueue | ⟨hnone, rfl⟩ := multiAnnotate_eq_ok hresult
    · exact h.handledAgain hitem hwallet fun hpending => hne (h.untouched item hitem hpending)
    · exact h.updated hqueue (fun item => (appendEntry_spec secret _ item).1)
        fun item => (appendEntry_spec secret _ item).2
    · exact h.appended _ hnone fun hpending => by cases hpending

/-- A skip keeps everything. -/
theorem Kept.skipped (h : s.Kept) (wallet : String) (written : Bool) :
    Kept (s.after (skip wallet written s.queue)
      (if wallet ∈ s.wallets then wallet :: s.handled else s.handled)) := by
  cases hresult : skip wallet written s.queue with
  | error e => exact h
  | ok queue =>
    have hqueue := atomicWrite_eq_ok hresult
    split_ifs with hwallet
    · obtain ⟨updated, hupdated⟩ := exists_updateFirst_eq QueueItem.asSkipped hwallet
      rw [hupdated, Option.getD_some] at hqueue
      subst hqueue
      exact h.updated hupdated (fun _ => rfl) fun _ hpending => by cases hpending
    · rw [updateFirst_eq_none_iff.mpr hwallet, Option.getD_none] at hqueue
      subst hqueue
      exact h

/-- A call keeps everything if it adds no wallet twice. -/
theorem Kept.step (h : s.Kept) {call : QueueCall} (hcall : AddsOnce aleatoricThreshold s call) :
    Kept (s.step secret aleatoricThreshold call) := by
  cases call with
  | push call written =>
    cases written with
    | false => exact h
    | true => exact h.pushed (hcall rfl)
  | annotate call written => exact h.annotated call written
  | multiAnnotate call written => exact h.multiAnnotated call written
  | skip wallet written => exact h.skipped wallet written

/-- A wallet that is added twice has two items. -/
theorem not_unique_step {call : QueueCall} (hcall : ¬AddsOnce aleatoricThreshold s call) :
    ¬(s.step secret aleatoricThreshold call).wallets.Nodup := by
  cases call with
  | push call written =>
    obtain ⟨rfl, hadded⟩ := Classical.not_imp.mp hcall
    intro hnodup
    have hwallets : (s.step secret aleatoricThreshold (.push call true)).wallets =
        s.wallets ++ call.added aleatoricThreshold s.queue := wallets_push call
    rw [hwallets] at hnodup
    exact hadded hnodup.of_append_right
  | annotate | multiAnnotate | skip => exact absurd trivial hcall

/-- In every state of a run each wallet has one item, and no batch has a wallet twice or one that
was handled, exactly if no push of the run adds a wallet twice. -/
theorem always_onePerWallet_iff (secret : String) (aleatoricThreshold : ℚ)
    (calls : List QueueCall) :
    Always (QueueRun.step secret aleatoricThreshold) OnePerWallet {} calls ↔
      Meets (QueueRun.step secret aleatoricThreshold) (AddsOnce aleatoricThreshold) {} calls := by
  have hstart : Kept {} := ⟨List.nodup_nil, by simp, by simp, by simp⟩
  refine always_iff_meets Kept (fun _ h => h.onePerWallet) (fun _ _ h hcall => h.step hcall)
    (fun _ _ _ hcall honce => not_unique_step hcall honce.unique) hstart calls

/-- A push with a wallet that is given twice. -/
private def pushTwice : PushCall where
  wallets := ["A", "A"]
  strategyName := "entropy"
  now := "2024-01-01T00:00:00+00:00"

/-- It leads to two items. -/
theorem push_twice_not_onePerWallet :
    ¬Always (QueueRun.step "secret" 1) OnePerWallet {} [.push pushTwice true] := by
  intro h
  exact absurd h.2.unique (by decide +kernel)

end QueueRun

end LedgerLens.Detection.ActiveLearning
