import LedgerLens.Ingestion.PaymentPaths
import Mathlib.Data.Finset.Lattice.Lemmas

/-!
# Payment walks

A walk is a sequence of payments, each given by its position among the payments of which nothing is
missing, so that payments with the same wallets and the same id are different ones. The walks that
are visited within the bounds on the depth and on the branching form a tree. This file says what a
turn of the loop adds to the result, and that the loop comes to an end.
-/

namespace LedgerLens.Ingestion.PaymentPaths

open StackSearch

section Walks

variable (ps : List Payment)

/-- A payment. -/
abbrev PaymentIndex : Type := Fin ps.length

/-- The payments out of a wallet. -/
def outgoing (w : String) : List (PaymentIndex ps) :=
  (List.finRange ps.length).filter fun i => ps[i].source = w

/-- The wallets of a walk. -/
def walkWallets (start : String) (walk : List (PaymentIndex ps)) : List String :=
  start :: walk.map fun i => ps[i].destination

/-- The ids of the payments of a walk. -/
def walkIds (walk : List (PaymentIndex ps)) : List String := walk.map fun i => ps[i].transactionId

/-- The wallet at the end of a walk. -/
def walkEnd (start : String) (walk : List (PaymentIndex ps)) : String :=
  (walkWallets ps start walk).getLast (List.cons_ne_nil _ _)

/-- Each payment of a walk is one out of the wallet at the end of those before. -/
def IsConsecutive : String → List (PaymentIndex ps) → Prop
  | _, [] => True
  | w, i :: walk => ps[i].source = w ∧ IsConsecutive ps[i].destination walk

/-- A walk ends at a wallet without payments, and has each wallet once. -/
def EndsAtSink (start : String) (walk : List (PaymentIndex ps)) : Prop :=
  walk ≠ [] ∧ (walkWallets ps start walk).Nodup ∧ outgoing ps (walkEnd ps start walk) = []

/-- A walk ends at a wallet that is on it before, and has each other wallet once. -/
def ClosesCycle (start : String) (walk : List (PaymentIndex ps)) : Prop :=
  (walkWallets ps start walk).dropLast.Nodup ∧
    walkEnd ps start walk ∈ (walkWallets ps start walk).dropLast

instance (start : String) (walk : List (PaymentIndex ps)) : Decidable (ClosesCycle ps start walk) :=
  inferInstanceAs (Decidable (_ ∧ _))

/-- A walk from a wallet that cannot be continued. -/
def IsMaximalWalk (start : String) (walk : List (PaymentIndex ps)) : Prop :=
  IsConsecutive ps start walk ∧ (EndsAtSink ps start walk ∨ ClosesCycle ps start walk)

variable {ps} {start : String}

theorem mem_outgoing_iff {w : String} {i : PaymentIndex ps} :
    i ∈ outgoing ps w ↔ ps[i].source = w := by
  unfold outgoing
  rw [List.mem_filter, and_iff_right (List.mem_finRange i), decide_eq_true_eq]

theorem nodup_outgoing (w : String) : (outgoing ps w).Nodup := (List.nodup_finRange _).filter _

theorem walkWallets_append (walk : List (PaymentIndex ps)) (i : PaymentIndex ps) :
    walkWallets ps start (walk ++ [i]) = walkWallets ps start walk ++ [ps[i].destination] := by
  unfold walkWallets
  rw [List.map_append, List.map_singleton, List.cons_append]

theorem walkIds_append (walk : List (PaymentIndex ps)) (i : PaymentIndex ps) :
    walkIds ps (walk ++ [i]) = walkIds ps walk ++ [ps[i].transactionId] := by
  unfold walkIds
  rw [List.map_append, List.map_singleton]

theorem walkEnd_append (walk : List (PaymentIndex ps)) (i : PaymentIndex ps) :
    walkEnd ps start (walk ++ [i]) = ps[i].destination := by
  unfold walkEnd
  simp only [walkWallets_append, List.getLast_append_singleton]

/-- A walk is continued at its end. -/
theorem isConsecutive_append_iff (walk : List (PaymentIndex ps)) (i : PaymentIndex ps) :
    IsConsecutive ps start (walk ++ [i]) ↔
      IsConsecutive ps start walk ∧ ps[i].source = walkEnd ps start walk := by
  induction walk generalizing start with
  | nil => exact and_comm
  | cons j walk ih =>
    show ps[j].source = start ∧ IsConsecutive ps ps[j].destination (walk ++ [i]) ↔ _
    rw [ih, ← and_assoc]
    rfl

/-- A walk that closes a cycle does so with its last payment. -/
theorem closesCycle_append_iff (walk : List (PaymentIndex ps)) (i : PaymentIndex ps) :
    ClosesCycle ps start (walk ++ [i]) ↔
      (walkWallets ps start walk).Nodup ∧ ps[i].destination ∈ walkWallets ps start walk := by
  unfold ClosesCycle
  rw [walkEnd_append, walkWallets_append, List.dropLast_concat]

theorem not_closesCycle_nil : ¬ClosesCycle ps start [] := fun h => List.not_mem_nil h.2

/-- What the graph has of a payment. -/
def paymentEdge (i : PaymentIndex ps) : String × String :=
  (ps[i].destination, ps[i].transactionId)

/-- The payments of a list out of a wallet are those at the positions out of it. -/
theorem map_filter_eq_outgoing (ps : List Payment) (w : String) :
    ((ps.filter fun p => p.source = w).map fun p => (p.destination, p.transactionId)) =
      (outgoing ps w).map paymentEdge := by
  have hget : (List.finRange ps.length).map (fun i => ps[i]) = ps := List.map_get_finRange ps
  conv_lhs => rw [← hget]
  rw [List.filter_map, List.map_map]
  rfl

/-- What is followed from a wallet. -/
theorem buildGraph_eq (payments : List PaymentOp) (w : String) :
    buildGraph payments w =
      (outgoing (completePayments payments) w).map paymentEdge := by
  have hloop : ∀ graph : String → List (String × String), payments.foldl addEdge graph w =
      graph w ++ (((payments.filterMap PaymentOp.payment?).filter fun p => p.source = w).map
        fun p => (p.destination, p.transactionId)) := by
    induction payments with
    | nil => simp
    | cons op payments ih =>
      intro graph
      rw [List.foldl_cons, ih, List.filterMap_cons]
      unfold addEdge
      cases op.payment? with
      | none => rfl
      | some p =>
        by_cases hw : p.source = w
        · subst hw
          simp
        · simp [hw, Function.update_of_ne (Ne.symm hw)]
  unfold buildGraph
  rw [hloop, List.nil_append, map_filter_eq_outgoing]

end Walks

/-- The bounds within which walks are visited, of one start. -/
structure WalkBounds (ps : List Payment) where
  /-- The start. -/
  start : String
  /-- The bound on the payments of a walk. -/
  depth : ℕ
  /-- The bound on the payments that are followed from a wallet. -/
  branching : ℕ

section Tree

variable {ps : List Payment} (b : WalkBounds ps)

/-- The payments out of the end of a walk. -/
def outgoingAt (walk : List (PaymentIndex ps)) : List (PaymentIndex ps) :=
  outgoing ps (walkEnd ps b.start walk)

/-- The payments that are followed from the end of a walk. -/
def followed (walk : List (PaymentIndex ps)) : List (PaymentIndex ps) :=
  if b.depth ≤ walk.length then [] else (outgoingAt b walk).take b.branching

/-- The payments that are not followed. -/
def skipped (walk : List (PaymentIndex ps)) : List (PaymentIndex ps) :=
  if b.depth ≤ walk.length then outgoingAt b walk else (outgoingAt b walk).drop b.branching

/-- The walks with one more payment that are visited next. -/
def longerWalks (walk : List (PaymentIndex ps)) : List (List (PaymentIndex ps)) :=
  ((followed b walk).filter fun i => ps[i].destination ∉ walkWallets ps b.start walk).map
    (walk ++ [·])

/-- The walks with one more payment that close a cycle. -/
def closedWalks (walk : List (PaymentIndex ps)) : List (List (PaymentIndex ps)) :=
  ((followed b walk).filter fun i => ps[i].destination ∈ walkWallets ps b.start walk).map
    (walk ++ [·])

/-- The walks that are listed as paths when a walk is visited. -/
def listedWalks (walk : List (PaymentIndex ps)) : List (List (PaymentIndex ps)) :=
  if outgoingAt b walk = [] then (if walk = [] then [] else [walk])
  else if b.depth ≤ walk.length then [walk]
  else closedWalks b walk

/-- The bound that keeps payments from being followed. -/
def skipReasons (walk : List (PaymentIndex ps)) : Finset TraceBound :=
  if skipped b walk = [] then ∅
  else if b.depth ≤ walk.length then {.maxDepth}
  else {.maxBranching}

/-- What the visit of a walk adds to the result. -/
def visitWalk (walk : List (PaymentIndex ps)) (result : PathTraceResult) : PathTraceResult :=
  { result with
    paths := result.paths ++ (listedWalks b walk).map (walkWallets ps b.start)
    paymentIds := result.paymentIds ++ (listedWalks b walk).map (walkIds ps)
    cycles := result.cycles ++ (closedWalks b walk).map (walkWallets ps b.start)
    truncated := result.truncated || skipped b walk != []
    truncationReasons := result.truncationReasons ∪ skipReasons b walk
    truncatedPaymentIds := result.truncatedPaymentIds ++
      (skipped b walk).map fun i => ps[i].transactionId }

/-- The entry of the stack for a walk. -/
def walkEntry (walk : List (PaymentIndex ps)) : StackEntry where
  wallets := walkWallets ps b.start walk
  txIds := walkIds ps walk
  nonempty := List.cons_ne_nil _ _

/-- Some cycles are found one after the other. -/
theorem foldl_addCycle (found : List (List String × List String)) (result : PathTraceResult) :
    found.foldl (fun result path => result.addCycle path.1 path.2) result =
      { result with
        paths := result.paths ++ found.map Prod.fst
        paymentIds := result.paymentIds ++ found.map Prod.snd
        cycles := result.cycles ++ found.map Prod.fst } := by
  induction found generalizing result with
  | nil => simp
  | cons path found ih =>
    rw [List.foldl_cons, ih]
    simp [PathTraceResult.addCycle, PathTraceResult.addPath]

/-- Some payments close a cycle, and the other ones are continued. -/
theorem followEdges_eq (entry : StackEntry) (edges : List (String × String))
    (result : PathTraceResult) :
    entry.followEdges edges result =
      (((edges.filter fun e => e.1 ∈ entry.wallets).map fun e =>
          (entry.wallets ++ [e.1], entry.txIds ++ [e.2])).foldl
            (fun result path => result.addCycle path.1 path.2) result,
        (edges.filter fun e => e.1 ∉ entry.wallets).map entry.extend) := by
  have hloop : ∀ (result : PathTraceResult) (children : List StackEntry),
      edges.foldl (fun acc edge =>
        if edge.1 ∈ entry.wallets then
          (acc.1.addCycle (entry.wallets ++ [edge.1]) (entry.txIds ++ [edge.2]), acc.2)
        else (acc.1, acc.2 ++ [entry.extend edge])) (result, children) =
      (((edges.filter fun e => e.1 ∈ entry.wallets).map fun e =>
          (entry.wallets ++ [e.1], entry.txIds ++ [e.2])).foldl
            (fun result path => result.addCycle path.1 path.2) result,
        children ++ (edges.filter fun e => e.1 ∉ entry.wallets).map entry.extend) := by
    induction edges with
    | nil => simp
    | cons e edges ih =>
      intro result children
      rw [List.foldl_cons]
      by_cases he : e.1 ∈ entry.wallets
      · rw [if_pos he, ih]
        simp [he]
      · rw [if_neg he, ih]
        simp [he]
  exact hloop result []

/-- A longer walk has the entry with one more payment. -/
theorem walkEntry_append (walk : List (PaymentIndex ps)) (i : PaymentIndex ps) :
    walkEntry b (walk ++ [i]) = (walkEntry b walk).extend (paymentEdge i) := by
  unfold walkEntry StackEntry.extend paymentEdge
  simp only [walkWallets_append, walkIds_append]

/-- The loop over some payments out of the end of a walk. -/
theorem followEdges_walkEntry (walk edges : List (PaymentIndex ps)) (result : PathTraceResult) :
    (walkEntry b walk).followEdges (edges.map paymentEdge) result =
      ({ result with
          paths := result.paths ++ ((edges.filter fun i =>
            ps[i].destination ∈ walkWallets ps b.start walk).map (walk ++ [·])).map
              (walkWallets ps b.start)
          paymentIds := result.paymentIds ++ ((edges.filter fun i =>
            ps[i].destination ∈ walkWallets ps b.start walk).map (walk ++ [·])).map (walkIds ps)
          cycles := result.cycles ++ ((edges.filter fun i =>
            ps[i].destination ∈ walkWallets ps b.start walk).map (walk ++ [·])).map
              (walkWallets ps b.start) },
        ((edges.filter fun i => ps[i].destination ∉ walkWallets ps b.start walk).map
          (walk ++ [·])).map (walkEntry b)) := by
  have hwallets : walkWallets ps b.start ∘ (walk ++ [·]) =
      fun i => walkWallets ps b.start walk ++ [ps[i].destination] :=
    funext fun i => walkWallets_append walk i
  have hids : walkIds ps ∘ (walk ++ [·]) = fun i => walkIds ps walk ++ [ps[i].transactionId] :=
    funext fun i => walkIds_append walk i
  have hentry : walkEntry b ∘ (walk ++ [·]) = fun i => (walkEntry b walk).extend (paymentEdge i) :=
    funext fun i => walkEntry_append b walk i
  rw [followEdges_eq, foldl_addCycle, List.filter_map, List.filter_map]
  simp only [List.map_map, hwallets, hids, hentry]
  rfl

/-- A turn of the loop on the entry of a walk. -/
theorem process_walkEntry {bounds : TraceBounds} {payments : List PaymentOp}
    {start : String} (walk : List (PaymentIndex (completePayments payments)))
    (result : PathTraceResult) :
    (walkEntry ⟨start, bounds.maxDepth.toNat, bounds.maxBranching.toNat⟩ walk).process
      (buildGraph payments) bounds result =
      (visitWalk ⟨start, bounds.maxDepth.toNat, bounds.maxBranching.toNat⟩ walk result,
        (longerWalks ⟨start, bounds.maxDepth.toNat, bounds.maxBranching.toNat⟩ walk).map
          (walkEntry ⟨start, bounds.maxDepth.toNat, bounds.maxBranching.toNat⟩)) := by
  obtain ⟨b, hb⟩ : ∃ b : WalkBounds (completePayments payments),
      b = ⟨start, bounds.maxDepth.toNat, bounds.maxBranching.toNat⟩ := ⟨_, rfl⟩
  rw [← hb]
  have hedges : buildGraph payments (walkEntry b walk).current =
      (outgoingAt b walk).map paymentEdge := buildGraph_eq payments _
  have hdepth : bounds.maxDepth ≤ (walkEntry b walk).txIds.length ↔ b.depth ≤ walk.length := by
    have hlength : (walkEntry b walk).txIds.length = walk.length := List.length_map _
    rw [hlength, hb]
    exact Int.toNat_le.symm
  have hids : (walkEntry b walk).txIds ≠ [] ↔ walk ≠ [] := not_congr List.map_eq_nil_iff
  have hbranching : outgoingAt b walk ≠ [] →
      (bounds.maxBranching < ((outgoingAt b walk).map paymentEdge).length ↔
        b.branching < (outgoingAt b walk).length) := by
    intro hne
    have hpos := List.length_pos_iff.mpr hne
    have htoNat : b.branching = bounds.maxBranching.toNat := by rw [hb]
    rw [List.length_map]
    omega
  have htake : bounds.maxBranching.toNat = b.branching := by rw [hb]
  unfold StackEntry.process
  dsimp only
  rw [hedges, htake, if_congr hdepth rfl rfl, if_congr hids rfl rfl]
  by_cases hnil : outgoingAt b walk = []
  · have hfollowed : followed b walk = [] := by simp [followed, hnil]
    have hskipped : skipped b walk = [] := by simp [skipped, hnil]
    rw [if_pos (List.map_eq_nil_iff.mpr hnil)]
    unfold visitWalk longerWalks listedWalks skipReasons closedWalks
    rw [hfollowed, hskipped, if_pos hnil]
    by_cases hwalk : walk = []
    · simp [hwalk]
    · simp [hwalk, PathTraceResult.addPath, walkEntry]
  · rw [if_neg (mt List.map_eq_nil_iff.mp hnil)]
    by_cases hdeep : b.depth ≤ walk.length
    · have hfollowed : followed b walk = [] := if_pos hdeep
      have hskipped : skipped b walk = outgoingAt b walk := if_pos hdeep
      rw [if_pos hdeep]
      unfold visitWalk longerWalks listedWalks skipReasons closedWalks
      rw [hfollowed, hskipped, if_neg hnil, if_pos hdeep, if_neg hnil, if_pos hdeep]
      simp [hnil, PathTraceResult.addPath, PathTraceResult.truncate, walkEntry, paymentEdge]
    · have hfollowed : followed b walk = (outgoingAt b walk).take b.branching := if_neg hdeep
      have hskipped : skipped b walk = (outgoingAt b walk).drop b.branching := if_neg hdeep
      rw [if_neg hdeep, if_congr (hbranching hnil) rfl rfl]
      unfold visitWalk longerWalks listedWalks skipReasons closedWalks
      rw [hfollowed, hskipped, if_neg hnil, if_neg hdeep, if_neg hdeep]
      by_cases hmany : b.branching < (outgoingAt b walk).length
      · rw [if_pos hmany, ← List.map_take, ← List.map_drop, followEdges_walkEntry]
        have hdrop : (outgoingAt b walk).drop b.branching ≠ [] := by
          rw [ne_eq, List.drop_eq_nil_iff]
          omega
        simp [hdrop, PathTraceResult.truncate]
        rfl
      · rw [if_neg hmany, followEdges_walkEntry]
        have hdrop : (outgoingAt b walk).drop b.branching = [] := by
          rw [List.drop_eq_nil_iff]
          omega
        rw [hdrop, List.take_of_length_le (not_lt.mp hmany)]
        simp

/-- How many payments a walk may still have. -/
def roomLeft (walk : List (PaymentIndex ps)) : ℕ := b.depth - walk.length

/-- The walks that are visited, in their order. -/
def visitedWalks : List (List (PaymentIndex ps)) := preorder (longerWalks b) (roomLeft b []) []

theorem mem_longerWalks_iff {walk longer : List (PaymentIndex ps)} :
    longer ∈ longerWalks b walk ↔
      ∃ i ∈ followed b walk, ps[i].destination ∉ walkWallets ps b.start walk ∧
        walk ++ [i] = longer := by
  unfold longerWalks
  simp only [List.mem_map, List.mem_filter, decide_eq_true_eq, and_assoc]

theorem mem_closedWalks_iff {walk longer : List (PaymentIndex ps)} :
    longer ∈ closedWalks b walk ↔
      ∃ i ∈ followed b walk, ps[i].destination ∈ walkWallets ps b.start walk ∧
        walk ++ [i] = longer := by
  unfold closedWalks
  simp only [List.mem_map, List.mem_filter, decide_eq_true_eq, and_assoc]

theorem mem_outgoingAt_iff {walk : List (PaymentIndex ps)} {i : PaymentIndex ps} :
    i ∈ outgoingAt b walk ↔ ps[i].source = walkEnd ps b.start walk := mem_outgoing_iff

/-- A payment is followed or not. -/
theorem mem_outgoingAt_iff_or {walk : List (PaymentIndex ps)} {i : PaymentIndex ps} :
    i ∈ outgoingAt b walk ↔ i ∈ followed b walk ∨ i ∈ skipped b walk := by
  unfold followed skipped
  split_ifs
  · simp
  · rw [← List.mem_append, List.take_append_drop]

/-- Payments are followed from walks that are not too long. -/
theorem length_lt_of_mem_followed {walk : List (PaymentIndex ps)} {i : PaymentIndex ps}
    (hi : i ∈ followed b walk) : walk.length < b.depth := by
  unfold followed at hi
  split_ifs at hi with hdeep
  · cases hi
  · omega

theorem nodup_followed (walk : List (PaymentIndex ps)) : (followed b walk).Nodup := by
  unfold followed
  split_ifs
  · exact List.nodup_nil
  · exact (List.take_sublist _ _).nodup (nodup_outgoing _)

/-- Different payments make different walks. -/
theorem append_singleton_injective (walk : List (PaymentIndex ps)) :
    Function.Injective fun i => walk ++ [i] := by
  intro i j h
  exact List.singleton_inj.mp (List.append_cancel_left h)

theorem roomLeft_lt (walk longer : List (PaymentIndex ps))
    (hlonger : longer ∈ longerWalks b walk) : roomLeft b longer < roomLeft b walk := by
  obtain ⟨i, hi, -, rfl⟩ := (mem_longerWalks_iff b).mp hlonger
  have hlength := length_lt_of_mem_followed b hi
  unfold roomLeft
  rw [List.length_append, List.length_singleton]
  omega

/-- No walk is visited twice. -/
theorem nodup_visitedWalks : (visitedWalks b).Nodup := by
  refine nodup_preorder (roomLeft_lt b) (fun walk => ?_) (fun walk walk' longer h h' => ?_) []
  · exact ((nodup_followed b walk).filter _).map (append_singleton_injective walk)
  · obtain ⟨i, -, -, hi⟩ := (mem_longerWalks_iff b).mp h
    obtain ⟨j, -, -, hj⟩ := (mem_longerWalks_iff b).mp h'
    exact (List.append_inj' (hi.trans hj.symm) rfl).1

theorem mem_visitedWalks_iff {walk : List (PaymentIndex ps)} :
    walk ∈ visitedWalks b ↔
      Relation.ReflTransGen (fun w w' => w' ∈ longerWalks b w) [] walk :=
  mem_preorder_iff (roomLeft_lt b)

theorem nil_mem_visitedWalks : [] ∈ visitedWalks b :=
  (mem_visitedWalks_iff b).mpr Relation.ReflTransGen.refl

/-- A walk is visited after the walk without its last payment, if this payment is followed and
closes no cycle. -/
theorem append_mem_visitedWalks_iff {walk : List (PaymentIndex ps)} {i : PaymentIndex ps} :
    walk ++ [i] ∈ visitedWalks b ↔ walk ∈ visitedWalks b ∧ i ∈ followed b walk ∧
      ps[i].destination ∉ walkWallets ps b.start walk := by
  rw [mem_visitedWalks_iff, mem_visitedWalks_iff, Relation.ReflTransGen.cases_tail_iff]
  constructor
  · rintro (hnil | ⟨w, hw, hlonger⟩)
    · exact absurd hnil (by simp)
    · obtain ⟨j, hj, hnew, heq⟩ := (mem_longerWalks_iff b).mp hlonger
      obtain ⟨rfl, hlast⟩ := List.append_inj' heq rfl
      obtain rfl := List.singleton_inj.mp hlast
      exact ⟨hw, hj, hnew⟩
  · rintro ⟨hw, hi, hnew⟩
    exact Or.inr ⟨walk, hw, (mem_longerWalks_iff b).mpr ⟨i, hi, hnew, rfl⟩⟩

/-- Walks that are visited have no wallet twice, and are not too long. -/
theorem visitedWalks_simple {walk : List (PaymentIndex ps)} (h : walk ∈ visitedWalks b) :
    IsConsecutive ps b.start walk ∧ (walkWallets ps b.start walk).Nodup ∧
      walk.length ≤ b.depth := by
  induction walk using List.reverseRecOn with
  | nil => exact ⟨trivial, List.nodup_singleton _, Nat.zero_le _⟩
  | append_singleton walk i ih =>
    obtain ⟨hw, hi, hnew⟩ := (append_mem_visitedWalks_iff b).mp h
    obtain ⟨hconsecutive, hnodup, -⟩ := ih hw
    have hend := (mem_outgoingAt_iff b).mp ((mem_outgoingAt_iff_or b).mpr (Or.inl hi))
    have hlength := length_lt_of_mem_followed b hi
    refine ⟨(isConsecutive_append_iff walk i).mpr ⟨hconsecutive, hend⟩, ?_, ?_⟩
    · rw [walkWallets_append, ← List.concat_eq_append]
      exact List.Nodup.concat hnew hnodup
    · rw [List.length_append, List.length_singleton]
      omega

/-- Every walk without a wallet twice is visited, unless one of its payments is not followed. -/
theorem mem_visitedWalks_or_skipped {walk : List (PaymentIndex ps)}
    (hconsecutive : IsConsecutive ps b.start walk) (hnodup : (walkWallets ps b.start walk).Nodup) :
    walk ∈ visitedWalks b ∨ ∃ i ∈ walk, ∃ u ∈ visitedWalks b, i ∈ skipped b u := by
  induction walk using List.reverseRecOn with
  | nil => exact Or.inl (nil_mem_visitedWalks b)
  | append_singleton walk i ih =>
    obtain ⟨hwalk, hend⟩ := (isConsecutive_append_iff walk i).mp hconsecutive
    rw [walkWallets_append, List.nodup_append'] at hnodup
    have hnew : ps[i].destination ∉ walkWallets ps b.start walk :=
      fun hmem => hnodup.2.2 hmem (List.mem_singleton_self _)
    obtain hvisited | ⟨j, hj, u, hu, hskipped⟩ := ih hwalk hnodup.1
    · obtain hfollowed | hskipped :=
        (mem_outgoingAt_iff_or b).mp ((mem_outgoingAt_iff b).mpr hend)
      · exact Or.inl ((append_mem_visitedWalks_iff b).mpr ⟨hvisited, hfollowed, hnew⟩)
      · exact Or.inr ⟨i, List.mem_append_right _ (List.mem_singleton_self i), walk, hvisited,
          hskipped⟩
    · exact Or.inr ⟨j, List.mem_append_left _ hj, u, hu, hskipped⟩

end Tree

end LedgerLens.Ingestion.PaymentPaths
