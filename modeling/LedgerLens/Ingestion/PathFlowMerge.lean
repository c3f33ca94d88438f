import LedgerLens.Library.UniqueTable
import Mathlib.Algebra.BigOperators.Group.List.Basic
import Mathlib.Algebra.Field.Rat
import Mathlib.Data.Rat.Defs

/-!
# Merging path flows

`merge_path_flows` collects the flows of two lists by their routes. The flows are dictionaries that
the caller still holds, and flows are added to each other in place. Amounts are exact here.
-/

namespace LedgerLens.Ingestion.PathFlows

/-- `ReconstructedPathFlow`. -/
structure PathFlow (Data : Type) where
  /-- `source_wallet`. -/
  sourceWallet : String
  /-- `destination_wallet`. -/
  destinationWallet : String
  /-- `source_amount`. -/
  sourceAmount : ℚ
  /-- `destination_amount`. -/
  destinationAmount : ℚ
  /-- `path_payment_ids`. -/
  pathPaymentIds : List String
  /-- A flow is reconstructed from a payment. -/
  nonempty : pathPaymentIds ≠ []
  /-- The rest of it. -/
  data : Data

variable {Data : Type}

/-- The flows that are held, by their references. -/
abbrev FlowHeap (Data : Type) : Type := ℕ → PathFlow Data

/-- `f"{flow['source_wallet']}→{flow['destination_wallet']}"`. -/
def PathFlow.key (flow : PathFlow Data) : String :=
  flow.sourceWallet ++ "→" ++ flow.destinationWallet

/-- The ids and the amounts of another flow are added to a flow. -/
def PathFlow.absorb (merged flow : PathFlow Data) : PathFlow Data where
  sourceWallet := merged.sourceWallet
  destinationWallet := merged.destinationWallet
  sourceAmount := merged.sourceAmount + flow.sourceAmount
  destinationAmount := merged.destinationAmount + flow.destinationAmount
  pathPaymentIds := merged.pathPaymentIds ++ flow.pathPaymentIds
  nonempty := List.append_ne_nil_of_left_ne_nil merged.nonempty _
  data := merged.data

/-- A turn of the loop over the second list. -/
def mergeFlow (state : FlowHeap Data × UniqueTable String ℕ) (flow : ℕ) :
    FlowHeap Data × UniqueTable String ℕ :=
  match state.2.find? (state.1 flow).key with
  | some r => (Function.update state.1 r ((state.1 r).absorb (state.1 flow)), state.2)
  | none => (state.1, state.2.put (state.1 flow).key flow)

/-- The dictionary of the first list. -/
def firstFlows (heap : FlowHeap Data) (flows1 : List ℕ) : UniqueTable String ℕ :=
  flows1.foldl (fun merged flow => merged.put (heap flow).key flow) .empty

/-- `merge_path_flows`: what the flows are afterwards, and the ones that are returned. -/
def mergePathFlows (heap : FlowHeap Data) (flows1 flows2 : List ℕ) : FlowHeap Data × List ℕ :=
  let state := flows2.foldl mergeFlow (heap, firstFlows heap flows1)
  (state.1, state.2.rows.map Prod.snd)

/-- The merge conserves the amounts and the ids, returns no route twice, leaves the flows that it is
given as they are, and gives the same again. -/
structure MergeConserves (heap : FlowHeap Data) (flows1 flows2 : List ℕ) : Prop where
  /-- The sums of `source_amount` are equal. -/
  sourceAmount : (((mergePathFlows heap flows1 flows2).2.map fun r =>
      ((mergePathFlows heap flows1 flows2).1 r).sourceAmount)).sum =
    ((flows1 ++ flows2).map fun r => (heap r).sourceAmount).sum
  /-- The sums of `destination_amount` are equal. -/
  destinationAmount : (((mergePathFlows heap flows1 flows2).2.map fun r =>
      ((mergePathFlows heap flows1 flows2).1 r).destinationAmount)).sum =
    ((flows1 ++ flows2).map fun r => (heap r).destinationAmount).sum
  /-- The payment ids are the same, each as often as before. -/
  paymentIds : ((mergePathFlows heap flows1 flows2).2.flatMap fun r =>
      ((mergePathFlows heap flows1 flows2).1 r).pathPaymentIds).Perm
    ((flows1 ++ flows2).flatMap fun r => (heap r).pathPaymentIds)
  /-- No two flows have the same wallets. -/
  routes : ((mergePathFlows heap flows1 flows2).2.map fun r =>
    (((mergePathFlows heap flows1 flows2).1 r).sourceWallet,
      ((mergePathFlows heap flows1 flows2).1 r).destinationWallet)).Nodup
  /-- The flows that are given do not change. -/
  inputs : ∀ r ∈ flows1 ++ flows2, (mergePathFlows heap flows1 flows2).1 r = heap r
  /-- A second merge gives the same flows. -/
  again : ((mergePathFlows (mergePathFlows heap flows1 flows2).1 flows1 flows2).2.map
      (mergePathFlows (mergePathFlows heap flows1 flows2).1 flows1 flows2).1) =
    (mergePathFlows heap flows1 flows2).2.map (mergePathFlows heap flows1 flows2).1

section Merge

/-- A flow never loses an id. -/
theorem length_ids_mergeFlow (state : FlowHeap Data × UniqueTable String ℕ) (flow r : ℕ) :
    (state.1 r).pathPaymentIds.length ≤ ((mergeFlow state flow).1 r).pathPaymentIds.length := by
  unfold mergeFlow
  cases state.2.find? (state.1 flow).key with
  | none => exact le_rfl
  | some r' =>
    dsimp only
    by_cases hr : r = r'
    · subst hr
      rw [Function.update_self]
      unfold PathFlow.absorb
      rw [List.length_append]
      omega
    · rw [Function.update_of_ne hr]

theorem length_ids_foldl (flows : List ℕ) (state : FlowHeap Data × UniqueTable String ℕ) (r : ℕ) :
    (state.1 r).pathPaymentIds.length ≤
      ((flows.foldl mergeFlow state).1 r).pathPaymentIds.length := by
  induction flows generalizing state with
  | nil => exact le_rfl
  | cons flow flows ih => exact (length_ids_mergeFlow state flow r).trans (ih _)

/-- A flow with a new route comes after all others. -/
theorem mergeFlow_of_new {heap : FlowHeap Data} {merged : UniqueTable String ℕ} {flow : ℕ}
    (hfind : merged.find? (heap flow).key = none) :
    mergeFlow (heap, merged) flow = (heap, merged.put (heap flow).key flow) := by
  unfold mergeFlow
  dsimp only
  rw [hfind]

/-- If the routes of the second list are new and different, its flows are added to those of the
first one. -/
theorem foldl_mergeFlow_of_new {heap : FlowHeap Data} {flows : List ℕ}
    {merged : UniqueTable String ℕ} (hnodup : (flows.map fun r => (heap r).key).Nodup)
    (hnew : ∀ r ∈ flows, merged.find? (heap r).key = none) :
    flows.foldl mergeFlow (heap, merged) =
      (heap, flows.foldl (fun merged flow => merged.put (heap flow).key flow) merged) := by
  induction flows generalizing merged with
  | nil => rfl
  | cons flow flows ih =>
    obtain ⟨hfresh, hnodup⟩ := List.nodup_cons.mp hnodup
    have hrest : ∀ r ∈ flows, (merged.put (heap flow).key flow).find? (heap r).key = none := by
      intro r hr
      have hne : (heap r).key ≠ (heap flow).key := fun h =>
        hfresh (List.mem_map.mpr ⟨r, hr, h⟩)
      rw [UniqueTable.find?_put, if_neg hne]
      exact hnew r (List.mem_cons_of_mem flow hr)
    rw [List.foldl_cons, List.foldl_cons, mergeFlow_of_new (hnew flow List.mem_cons_self),
      ih hnodup hrest]

/-- If the flows do not get more ids, the routes of the second list are new and different. -/
theorem new_of_foldl_mergeFlow {heap : FlowHeap Data} {flows : List ℕ}
    {merged : UniqueTable String ℕ}
    (hkept : ∀ r, (r ∈ flows ∨ ∃ k, merged.find? k = some r) →
      ((flows.foldl mergeFlow (heap, merged)).1 r).pathPaymentIds.length ≤
        (heap r).pathPaymentIds.length) :
    (flows.map fun r => (heap r).key).Nodup ∧
      ∀ r ∈ flows, merged.find? (heap r).key = none := by
  induction flows generalizing merged with
  | nil => simp
  | cons flow flows ih =>
    rw [List.foldl_cons] at hkept
    cases hfind : merged.find? (heap flow).key with
    | some r =>
      -- The flow that is there gets the ids of this one.
      have hstep : (heap r).pathPaymentIds.length <
          ((mergeFlow (heap, merged) flow).1 r).pathPaymentIds.length := by
        unfold mergeFlow
        dsimp only
        rw [hfind]
        dsimp only
        have hpos := List.length_pos_iff.mpr (heap flow).nonempty
        rw [Function.update_self]
        unfold PathFlow.absorb
        rw [List.length_append]
        omega
      have hlater := length_ids_foldl flows (mergeFlow (heap, merged) flow) r
      have hend := hkept r (Or.inr ⟨_, hfind⟩)
      omega
    | none =>
      rw [mergeFlow_of_new hfind] at hkept
      have hrest : ∀ r, (r ∈ flows ∨ ∃ k, (merged.put (heap flow).key flow).find? k = some r) →
          ((flows.foldl mergeFlow
            (heap, merged.put (heap flow).key flow)).1 r).pathPaymentIds.length ≤
              (heap r).pathPaymentIds.length := by
        rintro r (hr | ⟨k, hk⟩)
        · exact hkept r (Or.inl (List.mem_cons_of_mem flow hr))
        · rw [UniqueTable.find?_put] at hk
          split_ifs at hk
          · rw [← Option.some.inj hk]
            exact hkept flow (Or.inl List.mem_cons_self)
          · exact hkept r (Or.inr ⟨k, hk⟩)
      obtain ⟨hnodup, hnew⟩ := ih hrest
      have hother : ∀ r ∈ flows, (heap r).key ≠ (heap flow).key ∧
          merged.find? (heap r).key = none := by
        intro r hr
        have hnone := hnew r hr
        rw [UniqueTable.find?_put] at hnone
        split_ifs at hnone with hkey
        exact ⟨hkey, hnone⟩
      refine ⟨List.nodup_cons.mpr ⟨fun hmem => ?_, hnodup⟩, fun r hr => ?_⟩
      · obtain ⟨r, hr, hkey⟩ := List.mem_map.mp hmem
        exact (hother r hr).1 hkey
      · obtain rfl | hr := List.mem_cons.mp hr
        · exact hfind
        · exact (hother r hr).2

/-- The flows of the first dictionary are those of the first list. -/
theorem mem_of_find?_firstFlows {heap : FlowHeap Data} {flows1 : List ℕ} {k : String} {r : ℕ}
    (h : (firstFlows heap flows1).find? k = some r) : r ∈ flows1 := by
  unfold firstFlows at h
  obtain ⟨flow, hflow, -, rfl⟩ | hempty := UniqueTable.exists_of_find?_foldl_put h
  · exact hflow
  · cases hempty

/-- The first dictionary, if no two flows of the first list have the same route. -/
theorem rows_firstFlows {heap : FlowHeap Data} {flows1 : List ℕ}
    (hnodup : (flows1.map fun r => (heap r).key).Nodup) :
    (firstFlows heap flows1).rows = flows1.map fun r => ((heap r).key, r) := by
  have hrows := UniqueTable.rows_foldl_put_of_new (t := .empty) (fun r => (heap r).key)
    (fun r => r) hnodup fun r _ => UniqueTable.find?_empty _
  exact hrows

/-- If the routes of the second list are new and different, its flows come after those of the first
dictionary. -/
theorem mergePathFlows_of_new {heap : FlowHeap Data} {flows1 flows2 : List ℕ}
    (hnodup : (flows2.map fun r => (heap r).key).Nodup)
    (hnew : ∀ r ∈ flows2, (firstFlows heap flows1).find? (heap r).key = none) :
    mergePathFlows heap flows1 flows2 =
      (heap, (firstFlows heap flows1).rows.map Prod.snd ++ flows2) := by
  unfold mergePathFlows
  rw [foldl_mergeFlow_of_new hnodup hnew]
  dsimp only
  rw [UniqueTable.rows_foldl_put_of_new (fun r => (heap r).key) (fun r => r) hnodup hnew,
    List.map_append, List.map_map]
  exact congrArg (fun l => (heap, _ ++ l)) (List.map_id _)

/-- If all routes are different, the flows are returned as they are. -/
theorem mergePathFlows_of_nodup {heap : FlowHeap Data} {flows1 flows2 : List ℕ}
    (hnodup : ((flows1 ++ flows2).map fun r => (heap r).key).Nodup) :
    mergePathFlows heap flows1 flows2 = (heap, flows1 ++ flows2) := by
  rw [List.map_append, List.nodup_append'] at hnodup
  obtain ⟨hnodup₁, hnodup₂, hdisjoint⟩ := hnodup
  have hrows := rows_firstFlows hnodup₁
  have hnew : ∀ r ∈ flows2, (firstFlows heap flows1).find? (heap r).key = none := by
    intro r hr
    refine (UniqueTable.find?_eq_none_iff _ _).mpr fun hmem => ?_
    rw [hrows, List.map_map] at hmem
    exact hdisjoint hmem (List.mem_map_of_mem (f := fun r => (heap r).key) hr)
  rw [mergePathFlows_of_new hnodup₂ hnew, hrows, List.map_map]
  exact congrArg (fun l => (heap, l ++ flows2)) (List.map_id _)

/-- The merge conserves everything exactly if no two flows of the lists have the same route. -/
theorem mergePathFlows_conserves_iff (heap : FlowHeap Data) (flows1 flows2 : List ℕ) :
    MergeConserves heap flows1 flows2 ↔ ((flows1 ++ flows2).map fun r => (heap r).key).Nodup := by
  constructor
  · intro hmerge
    have hkept : ∀ r, (r ∈ flows2 ∨ ∃ k, (firstFlows heap flows1).find? k = some r) →
        ((flows2.foldl mergeFlow (heap, firstFlows heap flows1)).1 r).pathPaymentIds.length ≤
          (heap r).pathPaymentIds.length := by
      intro r hr
      have hinput : r ∈ flows1 ++ flows2 := by
        obtain hr | ⟨k, hk⟩ := hr
        · exact List.mem_append_right _ hr
        · exact List.mem_append_left _ (mem_of_find?_firstFlows hk)
      exact le_of_eq (congrArg (fun flow => flow.pathPaymentIds.length) (hmerge.inputs r hinput))
    obtain ⟨hnodup₂, hnew⟩ := new_of_foldl_mergeFlow hkept
    -- A flow of the first list that is overwritten would take its ids with it.
    have hids := hmerge.paymentIds.length_eq
    rw [mergePathFlows_of_new hnodup₂ hnew] at hids
    dsimp only at hids
    rw [List.flatMap_append, List.flatMap_append, List.length_append, List.length_append,
      List.flatMap_map] at hids
    obtain ⟨hnodup₁, -⟩ := (UniqueTable.length_flatMap_foldl_put (t := .empty)
      (f := fun kr => (heap kr.2).pathPaymentIds) (fun r => (heap r).key)
      (fun kr => (heap kr.2).nonempty) flows1).2 (by
        have hempty : ((UniqueTable.empty : UniqueTable String ℕ).rows.flatMap fun kr =>
            (heap kr.2).pathPaymentIds).length = 0 := rfl
        unfold firstFlows at hids
        dsimp only
        omega)
    rw [List.map_append, List.nodup_append']
    refine ⟨hnodup₁, hnodup₂, fun k hk₁ hk₂ => ?_⟩
    obtain ⟨r, hr, rfl⟩ := List.mem_map.mp hk₁
    obtain ⟨r', hr', hkey⟩ := List.mem_map.mp hk₂
    have hnone := hnew r' hr'
    rw [hkey, UniqueTable.find?_eq_none_iff, rows_firstFlows hnodup₁, List.map_map] at hnone
    exact hnone (List.mem_map.mpr ⟨r, hr, rfl⟩)
  · intro hnodup
    have hresult := mergePathFlows_of_nodup hnodup
    have hroutes : (((flows1 ++ flows2).map fun r =>
        ((heap r).sourceWallet, (heap r).destinationWallet)).map fun route =>
          route.1 ++ "→" ++ route.2).Nodup := by
      rw [List.map_map]
      exact hnodup
    exact {
      sourceAmount := by rw [hresult]
      destinationAmount := by rw [hresult]
      paymentIds := by rw [hresult]
      routes := by
        rw [hresult]
        exact List.Nodup.of_map _ hroutes
      inputs := by
        rw [hresult]
        exact fun r _ => rfl
      again := by rw [hresult, hresult] }

end Merge

private theorem singleId_ne_nil (id : String) : [id] ≠ [] := List.cons_ne_nil id []

/-- A flow between two wallets. -/
private def routeFlow (amount : ℚ) (id : String) : PathFlow Unit where
  sourceWallet := "A"
  destinationWallet := "B"
  sourceAmount := amount
  destinationAmount := amount
  pathPaymentIds := [id]
  nonempty := singleId_ne_nil id
  data := ()

/-- Two flows with the same route. -/
private def routeHeap : FlowHeap Unit
  | 0 => routeFlow 100 "t1"
  | _ => routeFlow 50 "t2"

/-- Of two flows in the first list, one is lost. Of flows in the first and in the second list, the
first one is changed. -/
theorem mergePathFlows_same_route :
    mergePathFlows routeHeap [0, 1] [] = (routeHeap, [1]) ∧
    (routeHeap 1).sourceAmount = 50 ∧
    ((mergePathFlows routeHeap [0] [1]).1 0).sourceAmount = 150 ∧
    (routeHeap 0).sourceAmount = 100 := by
  refine ⟨rfl, rfl, ?_, rfl⟩
  decide +kernel

end LedgerLens.Ingestion.PathFlows
