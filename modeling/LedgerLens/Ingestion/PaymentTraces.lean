import LedgerLens.Ingestion.PaymentWalks

/-!
# Traces of payments

What `trace_payment_paths` returns. If it is not truncated, the paths are all walks from the start
that cannot be continued. If it is, the payments at which walks were cut off are listed, unless
there were too many paths.
-/

namespace LedgerLens.Ingestion.PaymentPaths

open StackSearch

section Listed

variable {ps : List Payment} (b : WalkBounds ps)

/-- The walks that are listed as paths, in their order. -/
def allListed : List (List (PaymentIndex ps)) := (visitedWalks b).flatMap (listedWalks b)

/-- A walk that closes a cycle is listed with the walk before. -/
theorem closesCycle_of_mem_closedWalks {u walk : List (PaymentIndex ps)}
    (hu : u ∈ visitedWalks b) (h : walk ∈ closedWalks b u) :
    ClosesCycle ps b.start walk ∧ walk.dropLast = u := by
  obtain ⟨i, -, hmem, rfl⟩ := (mem_closedWalks_iff b).mp h
  refine ⟨(closesCycle_append_iff u i).mpr ⟨(visitedWalks_simple b hu).2.1, hmem⟩, ?_⟩
  exact List.dropLast_concat

/-- A walk that is visited closes no cycle. -/
theorem not_closesCycle_of_visited {u : List (PaymentIndex ps)} (hu : u ∈ visitedWalks b) :
    ¬ClosesCycle ps b.start u := by
  intro hcycle
  have hnodup := (visitedWalks_simple b hu).2.1
  have hsplit : (walkWallets ps b.start u).dropLast ++ [walkEnd ps b.start u] =
      walkWallets ps b.start u := List.dropLast_append_getLast _
  rw [← hsplit, List.nodup_append'] at hnodup
  exact hnodup.2.2 hcycle.2 (List.mem_singleton_self _)

/-- Which walk is visited when a walk is listed. -/
theorem visited_of_mem_listedWalks {u walk : List (PaymentIndex ps)}
    (hu : u ∈ visitedWalks b) (h : walk ∈ listedWalks b u) :
    u = if ClosesCycle ps b.start walk then walk.dropLast else walk := by
  have hself : u = if ClosesCycle ps b.start u then u.dropLast else u :=
    (if_neg (not_closesCycle_of_visited b hu)).symm
  unfold listedWalks at h
  split_ifs at h
  · cases h
  · rwa [List.mem_singleton.mp h]
  · rwa [List.mem_singleton.mp h]
  · obtain ⟨hcycle, hlast⟩ := closesCycle_of_mem_closedWalks b hu h
    rw [if_pos hcycle, hlast]

theorem nodup_listedWalks (u : List (PaymentIndex ps)) : (listedWalks b u).Nodup := by
  unfold listedWalks
  split_ifs
  · exact List.nodup_nil
  · exact List.nodup_singleton u
  · exact List.nodup_singleton u
  · exact ((nodup_followed b u).filter _).map (append_singleton_injective u)

/-- No walk is listed twice. -/
theorem nodup_allListed : (allListed b).Nodup := by
  refine List.nodup_flatMap.mpr ⟨fun u _ => nodup_listedWalks b u, ?_⟩
  refine (nodup_visitedWalks b).imp_of_mem fun {u u'} hu hu' hne walk h h' => hne ?_
  rw [visited_of_mem_listedWalks b hu h, visited_of_mem_listedWalks b hu' h']

/-- The cycles are the listed walks that close one. -/
theorem closedWalks_eq_filter {u : List (PaymentIndex ps)} (hu : u ∈ visitedWalks b) :
    closedWalks b u = (listedWalks b u).filter fun walk => ClosesCycle ps b.start walk := by
  have hopen := not_closesCycle_of_visited b hu
  unfold listedWalks
  split_ifs with hnil hempty hdeep
  · simp [closedWalks, followed, hnil]
  · simp [closedWalks, followed, hnil, hopen]
  · simp [closedWalks, followed, hdeep, hopen]
  · refine (List.filter_eq_self.mpr fun walk hwalk => ?_).symm
    exact decide_eq_true (closesCycle_of_mem_closedWalks b hu hwalk).1

/-- Listed walks are not too long. -/
theorem length_le_of_mem_allListed {walk : List (PaymentIndex ps)} (h : walk ∈ allListed b) :
    walk.length ≤ b.depth := by
  obtain ⟨u, hu, hlisted⟩ := List.mem_flatMap.mp h
  have hlength := (visitedWalks_simple b hu).2.2
  unfold listedWalks at hlisted
  split_ifs at hlisted
  · cases hlisted
  · rwa [List.mem_singleton.mp hlisted]
  · rwa [List.mem_singleton.mp hlisted]
  · obtain ⟨i, hi, -, rfl⟩ := (mem_closedWalks_iff b).mp hlisted
    rw [List.length_append, List.length_singleton]
    exact length_lt_of_mem_followed b hi

/-- A walk that cannot be continued is listed, unless one of its payments is not followed. -/
theorem listed_or_skipped {walk : List (PaymentIndex ps)} (h : IsMaximalWalk ps b.start walk) :
    walk ∈ allListed b ∨ ∃ i ∈ walk, ∃ u ∈ visitedWalks b, i ∈ skipped b u := by
  obtain ⟨hconsecutive, ⟨hne, hnodup, hsink⟩ | hcycle⟩ := h
  · refine (mem_visitedWalks_or_skipped b hconsecutive hnodup).imp_left fun hvisited => ?_
    refine List.mem_flatMap.mpr ⟨walk, hvisited, ?_⟩
    unfold listedWalks
    rw [if_pos (show outgoingAt b walk = [] from hsink), if_neg hne]
    exact List.mem_singleton_self walk
  · obtain rfl | ⟨u, i, rfl⟩ := walk.eq_nil_or_concat'
    · exact absurd hcycle not_closesCycle_nil
    · obtain ⟨hnodup, hmem⟩ := (closesCycle_append_iff u i).mp hcycle
      obtain ⟨hwalk, hend⟩ := (isConsecutive_append_iff u i).mp hconsecutive
      have hout := (mem_outgoingAt_iff b).mpr hend
      obtain hvisited | ⟨j, hj, hskipped⟩ := mem_visitedWalks_or_skipped b hwalk hnodup
      · obtain hfollowed | hskipped := (mem_outgoingAt_iff_or b).mp hout
        · refine Or.inl (List.mem_flatMap.mpr ⟨u, hvisited, ?_⟩)
          have hlength := length_lt_of_mem_followed b hfollowed
          unfold listedWalks
          rw [if_neg (List.ne_nil_of_mem hout), if_neg (not_le.mpr hlength)]
          exact (mem_closedWalks_iff b).mpr ⟨i, hfollowed, hmem, rfl⟩
        · exact Or.inr ⟨i, List.mem_append_right _ (List.mem_singleton_self i), u, hvisited,
            hskipped⟩
      · exact Or.inr ⟨j, List.mem_append_left _ hj, hskipped⟩

/-- If all payments are followed, the listed walks cannot be continued. -/
theorem isMaximalWalk_of_listed (hall : ∀ u ∈ visitedWalks b, skipped b u = [])
    {walk : List (PaymentIndex ps)} (h : walk ∈ allListed b) : IsMaximalWalk ps b.start walk := by
  obtain ⟨u, hu, hlisted⟩ := List.mem_flatMap.mp h
  obtain ⟨hconsecutive, hnodup, -⟩ := visitedWalks_simple b hu
  unfold listedWalks at hlisted
  split_ifs at hlisted with hnil hempty hdeep
  · cases hlisted
  · rw [List.mem_singleton.mp hlisted]
    exact ⟨hconsecutive, Or.inl ⟨hempty, hnodup, hnil⟩⟩
  · have hskipped := hall u hu
    unfold skipped at hskipped
    rw [if_pos hdeep] at hskipped
    exact absurd hskipped hnil
  · have hcycle := (closesCycle_of_mem_closedWalks b hu hlisted).1
    obtain ⟨i, hi, -, rfl⟩ := (mem_closedWalks_iff b).mp hlisted
    have hend := (mem_outgoingAt_iff b).mp ((mem_outgoingAt_iff_or b).mpr (Or.inl hi))
    exact ⟨(isConsecutive_append_iff u i).mpr ⟨hconsecutive, hend⟩, Or.inr hcycle⟩

/-- What all visits together make of the result. -/
def fullTrace : PathTraceResult where
  startWallet := b.start
  paths := (allListed b).map (walkWallets ps b.start)
  paymentIds := (allListed b).map (walkIds ps)
  cycles := ((allListed b).filter fun walk => ClosesCycle ps b.start walk).map
    (walkWallets ps b.start)
  truncated := (visitedWalks b).any fun walk => skipped b walk != []
  truncationReasons := ((visitedWalks b).map (skipReasons b)).foldr (· ∪ ·) ∅
  truncatedPaymentIds := walkIds ps ((visitedWalks b).flatMap (skipped b))

/-- Some visits, one after the other. -/
theorem foldl_visitWalk (walks : List (List (PaymentIndex ps))) (result : PathTraceResult) :
    walks.foldl (fun result walk => visitWalk b walk result) result =
      { result with
        paths := result.paths ++ (walks.flatMap (listedWalks b)).map (walkWallets ps b.start)
        paymentIds := result.paymentIds ++ (walks.flatMap (listedWalks b)).map (walkIds ps)
        cycles := result.cycles ++ (walks.flatMap (closedWalks b)).map (walkWallets ps b.start)
        truncated := result.truncated || walks.any fun walk => skipped b walk != []
        truncationReasons := result.truncationReasons ∪
          (walks.map (skipReasons b)).foldr (· ∪ ·) ∅
        truncatedPaymentIds :=
          result.truncatedPaymentIds ++ walkIds ps (walks.flatMap (skipped b)) } := by
  induction walks generalizing result with
  | nil => simp [walkIds]
  | cons walk walks ih =>
    rw [List.foldl_cons, ih]
    simp [visitWalk, walkIds, Bool.or_assoc]

theorem foldl_visitedWalks :
    (visitedWalks b).foldl (fun result walk => visitWalk b walk result)
      { startWallet := b.start } = fullTrace b := by
  have hclosed : (visitedWalks b).flatMap (closedWalks b) =
      (allListed b).filter fun walk => ClosesCycle ps b.start walk := by
    unfold allListed
    rw [List.filter_flatMap]
    exact List.flatMap_congr fun u hu => closedWalks_eq_filter b hu
  rw [foldl_visitWalk, hclosed]
  unfold fullTrace allListed
  simp

end Listed

section Trace

variable {ps : List Payment}

/-- What a trace returns. -/
def traced (bounds : TraceBounds) (b : WalkBounds ps) : PathTraceResult :=
  PathTraceResult.trim bounds (visitAll
    (fun result : PathTraceResult => decide (bounds.maxPaths ≤ result.paths.length))
    (PathTraceResult.truncate .maxPaths []) (visitWalk b) (visitedWalks b)
    { startWallet := b.start })

/-- Either all walks are visited and listed, or there are too many paths. -/
theorem traced_eq_or (bounds : TraceBounds) (b : WalkBounds ps) :
    traced bounds b = fullTrace b ∨
      (traced bounds b).truncated = true ∧ .maxPaths ∈ (traced bounds b).truncationReasons := by
  obtain ⟨result, hresult⟩ : ∃ result, result = visitAll
      (fun result : PathTraceResult => decide (bounds.maxPaths ≤ result.paths.length))
      (PathTraceResult.truncate .maxPaths []) (visitWalk b) (visitedWalks b)
      { startWallet := b.start } := ⟨_, rfl⟩
  have htraced : traced bounds b = PathTraceResult.trim bounds result := by
    rw [hresult]
    rfl
  rw [htraced]
  unfold PathTraceResult.trim
  split_ifs
  · exact Or.inr ⟨rfl, Finset.mem_insert_self _ _⟩
  · obtain hall | ⟨halted, hhalted⟩ := visitAll_eq
      (fun result : PathTraceResult => decide (bounds.maxPaths ≤ result.paths.length))
      (PathTraceResult.truncate .maxPaths []) (visitWalk b) (visitedWalks b)
      { startWallet := b.start }
    · rw [hresult, hall]
      exact Or.inl (foldl_visitedWalks b)
    · rw [hresult, hhalted]
      exact Or.inr ⟨rfl, Finset.mem_insert_self _ _⟩

/-- There are never more paths than the bound says. -/
theorem length_paths_traced_le {bounds : TraceBounds} (hpaths : 1 ≤ bounds.maxPaths)
    (b : WalkBounds ps) : ((traced bounds b).paths.length : ℤ) ≤ bounds.maxPaths := by
  unfold traced PathTraceResult.trim
  split_ifs with hmany
  · rw [List.length_take]
    omega
  · exact not_lt.mp hmany

/-- With bounds of at least one, the loop comes to an end. -/
theorem exists_tracePaymentPaths_eq {bounds : TraceBounds} (hdepth : 1 ≤ bounds.maxDepth)
    (hbranching : 1 ≤ bounds.maxBranching) (hpaths : 1 ≤ bounds.maxPaths) (start : String)
    (payments : List PaymentOp) :
    ∃ fuel, ∀ more, tracePaymentPaths (fuel + more) start payments bounds =
      .ok (some (traced bounds (⟨start, bounds.maxDepth.toNat, bounds.maxBranching.toNat⟩ :
        WalkBounds (completePayments payments)))) := by
  obtain ⟨b, hb⟩ : ∃ b : WalkBounds (completePayments payments),
      b = ⟨start, bounds.maxDepth.toNat, bounds.maxBranching.toNat⟩ := ⟨_, rfl⟩
  rw [← hb]
  refine ⟨(visitedWalks b).length + 1, fun more => ?_⟩
  have hvalid : checkBounds bounds = .ok () := by
    unfold checkBounds
    have hnone : [TraceBound.maxDepth, .maxBranching, .maxPaths].find? (bounds.value · < 1) =
        none := by
      simp [TraceBounds.value, not_lt.mpr hdepth, not_lt.mpr hbranching, not_lt.mpr hpaths]
    rw [hnone]
  have hstep : ∀ walk result, (walkEntry b walk).process (buildGraph payments) bounds result =
      (visitWalk b walk result, (longerWalks b walk).map (walkEntry b)) := by
    rw [hb]
    exact process_walkEntry
  have hnodes : ([[]].flatMap fun walk => preorder (longerWalks b) (roomLeft b walk) walk) =
      visitedWalks b := List.flatMap_singleton _ _
  have hsearch := search_eq (roomLeft_lt b) (walkEntry b)
    (fun result : PathTraceResult => decide (bounds.maxPaths ≤ result.paths.length))
    (PathTraceResult.truncate .maxPaths []) hstep ((visitedWalks b).length + 1 + more) [[]]
    { startWallet := start } (by rw [hnodes]; omega)
  rw [hnodes] at hsearch
  unfold tracePaymentPaths
  have hroot : [[]].map (walkEntry b) = [⟨[start], [], List.cons_ne_nil _ _⟩] := by
    rw [hb]
    rfl
  have hstart : b.start = start := by rw [hb]
  rw [hroot] at hsearch
  rw [hvalid]
  dsimp only [bind, Except.bind]
  rw [hsearch]
  unfold traced
  rw [hstart]
  rfl

/-- Every walk that is visited is the beginning of one that is listed, but for an empty walk that
cannot be continued. -/
theorem exists_listed_of_visited {b : WalkBounds ps} (hbranching : 0 < b.branching)
    {u : List (PaymentIndex ps)} (hu : u ∈ visitedWalks b)
    (hne : u ≠ [] ∨ outgoingAt b u ≠ []) : ∃ walk ∈ allListed b, ∀ i ∈ u, i ∈ walk := by
  induction hroom : roomLeft b u using Nat.strong_induction_on generalizing u with
  | _ room ih =>
    by_cases hnil : outgoingAt b u = []
    · refine ⟨u, List.mem_flatMap.mpr ⟨u, hu, ?_⟩, fun i hi => hi⟩
      unfold listedWalks
      rw [if_pos hnil, if_neg (hne.resolve_right (not_not.mpr hnil))]
      exact List.mem_singleton_self u
    · by_cases hdeep : b.depth ≤ u.length
      · refine ⟨u, List.mem_flatMap.mpr ⟨u, hu, ?_⟩, fun i hi => hi⟩
        unfold listedWalks
        rw [if_neg hnil, if_pos hdeep]
        exact List.mem_singleton_self u
      · -- The first payment out of the end is followed.
        obtain ⟨j, rest, hj⟩ := List.exists_cons_of_ne_nil hnil
        have hfollowed : j ∈ followed b u := by
          unfold followed
          rw [if_neg hdeep, hj, ← Nat.succ_pred_eq_of_pos hbranching, List.take_succ_cons]
          exact List.mem_cons_self
        by_cases hmem : ps[j].destination ∈ walkWallets ps b.start u
        · refine ⟨u ++ [j], List.mem_flatMap.mpr ⟨u, hu, ?_⟩, fun i => List.mem_append_left _⟩
          unfold listedWalks
          rw [if_neg hnil, if_neg hdeep]
          exact (mem_closedWalks_iff b).mpr ⟨j, hfollowed, hmem, rfl⟩
        · have hlonger := (mem_longerWalks_iff b).mpr ⟨j, hfollowed, hmem, rfl⟩
          obtain ⟨walk, hwalk, hcontains⟩ := ih _ (hroom ▸ roomLeft_lt b u _ hlonger)
            ((append_mem_visitedWalks_iff b).mpr ⟨hu, hfollowed, hmem⟩) (Or.inl (by simp)) rfl
          exact ⟨walk, hwalk, fun i hi => hcontains i (List.mem_append_left _ hi)⟩

/-- A payment out of the end of a walk that is visited is on a listed walk or not followed. -/
theorem exists_listed_or_skipped {b : WalkBounds ps} (hbranching : 0 < b.branching)
    {u : List (PaymentIndex ps)} (hu : u ∈ visitedWalks b) {i : PaymentIndex ps}
    (hi : ps[i].source = walkEnd ps b.start u) :
    (∃ walk ∈ allListed b, i ∈ walk) ∨ i ∈ skipped b u := by
  have hout := (mem_outgoingAt_iff b).mpr hi
  refine ((mem_outgoingAt_iff_or b).mp hout).imp_left fun hfollowed => ?_
  have hlast : i ∈ u ++ [i] := List.mem_append_right _ (List.mem_singleton_self i)
  by_cases hmem : ps[i].destination ∈ walkWallets ps b.start u
  · refine ⟨u ++ [i], List.mem_flatMap.mpr ⟨u, hu, ?_⟩, hlast⟩
    have hlength := length_lt_of_mem_followed b hfollowed
    unfold listedWalks
    rw [if_neg (List.ne_nil_of_mem hout), if_neg (not_le.mpr hlength)]
    exact (mem_closedWalks_iff b).mpr ⟨i, hfollowed, hmem, rfl⟩
  · obtain ⟨walk, hwalk, hcontains⟩ := exists_listed_of_visited hbranching
      ((append_mem_visitedWalks_iff b).mpr ⟨hu, hfollowed, hmem⟩) (Or.inl (by simp))
    exact ⟨walk, hwalk, hcontains i hlast⟩

/-- The wallets of a walk that is visited are at the ends of such walks. -/
theorem exists_visited_end {b : WalkBounds ps} {u : List (PaymentIndex ps)}
    (hu : u ∈ visitedWalks b) {w : String} (hw : w ∈ walkWallets ps b.start u) :
    ∃ v ∈ visitedWalks b, walkEnd ps b.start v = w := by
  induction u using List.reverseRecOn with
  | nil => exact ⟨[], hu, (List.mem_singleton.mp hw).symm⟩
  | append_singleton u i ih =>
    rw [walkWallets_append, List.mem_append, List.mem_singleton] at hw
    obtain hw | rfl := hw
    · exact ih ((append_mem_visitedWalks_iff b).mp hu).1 hw
    · exact ⟨u ++ [i], hu, walkEnd_append u i⟩

/-- The wallets of a listed walk are at the ends of walks that are visited. -/
theorem exists_visited_end_of_listed {b : WalkBounds ps} {walk : List (PaymentIndex ps)}
    (hwalk : walk ∈ allListed b) {w : String} (hw : w ∈ walkWallets ps b.start walk) :
    ∃ v ∈ visitedWalks b, walkEnd ps b.start v = w := by
  obtain ⟨u, hu, hlisted⟩ := List.mem_flatMap.mp hwalk
  unfold listedWalks at hlisted
  split_ifs at hlisted
  · cases hlisted
  · rw [List.mem_singleton.mp hlisted] at hw
    exact exists_visited_end hu hw
  · rw [List.mem_singleton.mp hlisted] at hw
    exact exists_visited_end hu hw
  · obtain ⟨i, -, hmem, rfl⟩ := (mem_closedWalks_iff b).mp hlisted
    rw [walkWallets_append, List.mem_append, List.mem_singleton] at hw
    obtain hw | rfl := hw
    · exact exists_visited_end hu hw
    · exact exists_visited_end hu hmem

/-- With bounds of at least one, the loop comes to an end. If the result is not truncated, the
payment ids are those of all walks from the start that cannot be continued, each once, the cycles
are the ones that end at a wallet they had before, and none is longer than the bound. -/
theorem trace_complete (start : String) (payments : List PaymentOp) (bounds : TraceBounds)
    (hdepth : 1 ≤ bounds.maxDepth) (hbranching : 1 ≤ bounds.maxBranching)
    (hpaths : 1 ≤ bounds.maxPaths) :
    ∃ fuel result,
      (∀ more, tracePaymentPaths (fuel + more) start payments bounds = .ok (some result)) ∧
      (result.truncated = false → ∃ walks : List (List (PaymentIndex (completePayments payments))),
        walks.Nodup ∧
        (∀ walk, walk ∈ walks ↔ IsMaximalWalk (completePayments payments) start walk) ∧
        result.paymentIds = walks.map (walkIds (completePayments payments)) ∧
        result.paths = walks.map (walkWallets (completePayments payments) start) ∧
        result.cycles = (walks.filter fun walk =>
          ClosesCycle (completePayments payments) start walk).map
            (walkWallets (completePayments payments) start) ∧
        ∀ walk ∈ walks, (walk.length : ℤ) ≤ bounds.maxDepth) := by
  obtain ⟨fuel, hfuel⟩ :=
    exists_tracePaymentPaths_eq hdepth hbranching hpaths start payments
  refine ⟨fuel, _, hfuel, fun htruncated => ?_⟩
  obtain ⟨b, hb⟩ : ∃ b : WalkBounds (completePayments payments),
      b = ⟨start, bounds.maxDepth.toNat, bounds.maxBranching.toNat⟩ := ⟨_, rfl⟩
  have hstart : start = b.start := by rw [hb]
  rw [← hb] at htruncated ⊢
  have hfull : traced bounds b = fullTrace b := by
    refine (traced_eq_or bounds b).resolve_right fun h => ?_
    rw [h.1] at htruncated
    cases htruncated
  rw [hfull] at htruncated ⊢
  have hall : ∀ u ∈ visitedWalks b, skipped b u = [] := by
    intro u hu
    have hnone := List.any_eq_false.mp htruncated u hu
    simpa using hnone
  refine ⟨allListed b, nodup_allListed b, fun walk => ?_, rfl, ?_, ?_, fun walk hwalk => ?_⟩
  · rw [hstart]
    refine ⟨isMaximalWalk_of_listed b hall, fun hmaximal => ?_⟩
    refine (listed_or_skipped b hmaximal).resolve_right ?_
    rintro ⟨i, -, u, hu, hskipped⟩
    rw [hall u hu] at hskipped
    cases hskipped
  · rw [hstart]
    rfl
  · rw [hstart]
    rfl
  · have hlength := length_le_of_mem_allListed b hwalk
    rw [hb] at hlength
    dsimp only at hlength
    omega

/-- A payment with everything. -/
private def paymentOp (src dst tx : String) : PaymentOp := ⟨some src, some dst, some tx⟩

/-- The bounds of the code. -/
private def traceDefaults : TraceBounds where
  maxDepth := 12
  maxBranching := 32
  maxPaths := 10000

/-- Two wallets that pay each other. -/
theorem trace_complete_pair :
    ∃ fuel result,
      (∀ more, tracePaymentPaths (fuel + more) "A" [paymentOp "A" "B" "t0", paymentOp "B" "A" "t1"]
        traceDefaults = .ok (some result)) ∧
      (result.truncated = false → ∃ walks : List (List (PaymentIndex (completePayments
          [paymentOp "A" "B" "t0", paymentOp "B" "A" "t1"]))),
        walks.Nodup ∧ (∀ walk, walk ∈ walks ↔ IsMaximalWalk _ "A" walk) ∧
        result.paymentIds = walks.map (walkIds _) ∧ result.paths = walks.map (walkWallets _ "A") ∧
        result.cycles = (walks.filter fun walk => ClosesCycle _ "A" walk).map
          (walkWallets _ "A") ∧
        ∀ walk ∈ walks, (walk.length : ℤ) ≤ 12) :=
  trace_complete "A" [paymentOp "A" "B" "t0", paymentOp "B" "A" "t1"] traceDefaults (by decide)
    (by decide) (by decide)

/-- With bounds of at least one, there are at most as many paths as the last bound says. If that
bound is not hit, then every cycle is one of the paths, every payment out of the start or out of a
wallet on a path is on a path or listed as truncated, and every walk from the start that cannot be
continued is one of the paths or has a payment that is listed as truncated. -/
theorem trace_bounded (start : String) (payments : List PaymentOp) (bounds : TraceBounds)
    (hdepth : 1 ≤ bounds.maxDepth) (hbranching : 1 ≤ bounds.maxBranching)
    (hpaths : 1 ≤ bounds.maxPaths) :
    ∃ fuel result,
      (∀ more, tracePaymentPaths (fuel + more) start payments bounds = .ok (some result)) ∧
      (result.paths.length : ℤ) ≤ bounds.maxPaths ∧
      (.maxPaths ∉ result.truncationReasons →
        (∀ cycle ∈ result.cycles, cycle ∈ result.paths) ∧
        (∀ i : PaymentIndex (completePayments payments),
          ((completePayments payments)[i].source = start ∨
            ∃ path ∈ result.paths, (completePayments payments)[i].source ∈ path) →
          (∃ walk, i ∈ walk ∧ (walkWallets (completePayments payments) start walk,
            walkIds (completePayments payments) walk) ∈ result.paths.zip result.paymentIds) ∨
          (completePayments payments)[i].transactionId ∈ result.truncatedPaymentIds) ∧
        ∀ walk, IsMaximalWalk (completePayments payments) start walk →
          (walkWallets (completePayments payments) start walk,
            walkIds (completePayments payments) walk) ∈ result.paths.zip result.paymentIds ∨
          ∃ i ∈ walk,
            (completePayments payments)[i].transactionId ∈ result.truncatedPaymentIds) := by
  obtain ⟨fuel, hfuel⟩ :=
    exists_tracePaymentPaths_eq hdepth hbranching hpaths start payments
  refine ⟨fuel, _, hfuel, length_paths_traced_le hpaths _, fun hreason => ?_⟩
  obtain ⟨b, hb⟩ : ∃ b : WalkBounds (completePayments payments),
      b = ⟨start, bounds.maxDepth.toNat, bounds.maxBranching.toNat⟩ := ⟨_, rfl⟩
  have hstart : start = b.start := by rw [hb]
  have hfollow : 0 < b.branching := by
    rw [hb]
    dsimp only
    omega
  rw [← hb] at hreason ⊢
  rw [hstart]
  rw [(traced_eq_or bounds b).resolve_right fun h => hreason h.2]
  have hzip : ∀ walk ∈ allListed b,
      (walkWallets (completePayments payments) b.start walk,
        walkIds (completePayments payments) walk) ∈
        (fullTrace b).paths.zip (fullTrace b).paymentIds := by
    intro walk hwalk
    unfold fullTrace
    rw [List.zip_map', List.mem_map]
    exact ⟨walk, hwalk, rfl⟩
  have hlisted : ∀ u ∈ visitedWalks b, ∀ i ∈ skipped b u,
      (completePayments payments)[i].transactionId ∈ (fullTrace b).truncatedPaymentIds :=
    fun u hu i hi => List.mem_map.mpr ⟨i, List.mem_flatMap.mpr ⟨u, hu, hi⟩, rfl⟩
  refine ⟨fun cycle hcycle => ?_, fun i hi => ?_, fun walk hmaximal => ?_⟩
  · obtain ⟨walk, hwalk, rfl⟩ := List.mem_map.mp hcycle
    exact List.mem_map.mpr ⟨walk, (List.mem_filter.mp hwalk).1, rfl⟩
  · have hvisited : ∃ u ∈ visitedWalks b, (completePayments payments)[i].source =
        walkEnd (completePayments payments) b.start u := by
      obtain hsource | ⟨path, hpath, hmem⟩ := hi
      · exact ⟨[], nil_mem_visitedWalks b, hsource⟩
      · obtain ⟨walk, hwalk, rfl⟩ := List.mem_map.mp hpath
        obtain ⟨u, hu, hend⟩ := exists_visited_end_of_listed hwalk hmem
        exact ⟨u, hu, hend.symm⟩
    obtain ⟨u, hu, hend⟩ := hvisited
    obtain ⟨walk, hwalk, hmem⟩ | hskipped := exists_listed_or_skipped hfollow hu hend
    · exact Or.inl ⟨walk, hmem, hzip walk hwalk⟩
    · exact Or.inr (hlisted u hu i hskipped)
  · refine (listed_or_skipped b hmaximal).imp (hzip walk) ?_
    rintro ⟨i, hi, u, hu, hskipped⟩
    exact ⟨i, hi, hlisted u hu i hskipped⟩

/-- Two wallets that pay each other are on one path. -/
theorem trace_bounded_pair :
    ∃ fuel result,
      (∀ more, tracePaymentPaths (fuel + more) "A" [paymentOp "A" "B" "t0", paymentOp "B" "A" "t1"]
        traceDefaults = .ok (some result)) ∧
      (result.paths.length : ℤ) ≤ 10000 ∧
      (.maxPaths ∉ result.truncationReasons → ∀ cycle ∈ result.cycles, cycle ∈ result.paths) := by
  obtain ⟨fuel, result, hreturns, hlength, hkept⟩ := trace_bounded "A"
    [paymentOp "A" "B" "t0", paymentOp "B" "A" "t1"] traceDefaults (by decide) (by decide)
    (by decide)
  exact ⟨fuel, result, hreturns, hlength, fun hreason => (hkept hreason).1⟩

/-- With one hop, the third payment of a chain is on no path and not listed, though the unbounded
trace would follow it. With one path, a cycle is listed of which the path is dropped. -/
theorem trace_cut_off :
    (∃ result, tracePaymentPaths 9 "A"
        [paymentOp "A" "B" "t0", paymentOp "B" "C" "t1", paymentOp "C" "D" "t2"] ⟨1, 32, 10000⟩ =
          .ok (some result) ∧
      IsMaximalWalk [⟨"A", "B", "t0"⟩, ⟨"B", "C", "t1"⟩, ⟨"C", "D", "t2"⟩] "A" [0, 1, 2] ∧
      result.paths = [["A", "B"]] ∧ result.truncatedPaymentIds = ["t1"]) ∧
    ∃ result, tracePaymentPaths 9 "A"
        [paymentOp "A" "B" "t0", paymentOp "B" "A" "t1", paymentOp "B" "B" "t2"] ⟨12, 32, 1⟩ =
          .ok (some result) ∧
      ["A", "B", "B"] ∈ result.cycles ∧ result.paths = [["A", "B", "A"]] := by
  refine ⟨⟨_, rfl, ?_, rfl, rfl⟩, ⟨_, rfl, ?_, rfl⟩⟩
  · refine ⟨?_, Or.inl ⟨by decide, by decide, by decide⟩⟩
    exact ⟨rfl, rfl, rfl, trivial⟩
  · decide

end Trace

end LedgerLens.Ingestion.PaymentPaths
