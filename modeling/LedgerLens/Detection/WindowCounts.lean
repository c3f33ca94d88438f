import LedgerLens.Detection.SlidingWindowBenford
import LedgerLens.Library.Runs
import Mathlib.Data.List.TakeWhile

/-!
# Which trades the window counts

A history of an aggregator follows every accepted trade: whether its heap entry is still
there, whether `expire_trade` was called for it, and how often it was taken off the counts.
The heap entry of a trade stays behind when the trade is expired explicitly. So the counts
are exact as long as no such entry comes up while a newer trade of its digit is counted, and
as long as `expire_trade` is called for trades that are counted.
-/

namespace LedgerLens.Detection

open Raising Transition

/-- An accepted trade and what has happened to it. -/
structure TrackedTrade (Amount Time : Type) where
  /-- Its amount. -/
  amount : Amount
  /-- Its timestamp. -/
  timestamp : Time
  /-- Its leading digit, as an index of the counts. -/
  digit : Fin 9
  /-- It was expired explicitly. -/
  removed : Bool := false
  /-- How often it was taken off the counts. -/
  subtractions : ℕ := 0
  deriving DecidableEq

/-- An aggregator with its accepted trades. -/
structure WindowHistory (Amount Time : Type) where
  /-- The aggregator. -/
  aggregator : WindowAggregator Time := {}
  /-- The trades whose entries are in the heap, in the order in which they are popped. Where
  entries are equal, those of trades that are still counted go first. -/
  pending : List (TrackedTrade Amount Time) := []
  /-- The trades that were lazily expired. -/
  popped : List (TrackedTrade Amount Time) := []

/-- A call of the aggregator. -/
inductive WindowCall (Amount Time : Type) where
  /-- `add_trade`. -/
  | addTrade (amount : Amount) (timestamp : Time)
  /-- `expire_trade`. -/
  | expireTrade (amount : Amount) (timestamp : Time)

section

variable {Amount Time : Type} [LinearOrder Time]

namespace TrackedTrade

/-- The heap entry of a trade. -/
def entry (trade : TrackedTrade Amount Time) : Time ×ₗ Fin 9 :=
  toLex (trade.timestamp, trade.digit)

/-- The place of a trade among the pending ones. -/
def rank (trade : TrackedTrade Amount Time) : Time ×ₗ Fin 9 ×ₗ Bool :=
  toLex (trade.timestamp, toLex (trade.digit, trade.removed))

/-- A trade with another subtraction, if the count of its digit lets it. -/
def subtractedFrom (counts : Fin 9 → ℕ) (trade : TrackedTrade Amount Time) :
    TrackedTrade Amount Time :=
  { trade with subtractions := trade.subtractions + if 0 < counts trade.digit then 1 else 0 }

/-- Add a trade to the pending ones. -/
def enter (trade : TrackedTrade Amount Time) (pending : List (TrackedTrade Amount Time)) :
    List (TrackedTrade Amount Time) :=
  pending.orderedInsert (fun a b => a.rank ≤ b.rank) trade

/-- How many of the trades have a digit and are counted. -/
def counted (digit : Fin 9) (trades : List (TrackedTrade Amount Time)) : ℕ :=
  trades.countP fun trade => decide (trade.digit = digit) && !trade.removed

end TrackedTrade

open TrackedTrade

/-- The trades of entries that are popped one after the other, while the counts go down. -/
def popAll : (Fin 9 → ℕ) → List (TrackedTrade Amount Time) → List (TrackedTrade Amount Time)
  | _, [] => []
  | counts, trade :: trades =>
    trade.subtractedFrom counts ::
      popAll (Function.update counts trade.digit (counts trade.digit - 1)) trades

namespace WindowHistory

/-- The trade that `expire_trade` is called for: it has the amount and the timestamp, and it
is counted. -/
def named [DecidableEq Amount] (amount : Amount) (timestamp : Time)
    (trade : TrackedTrade Amount Time) : Bool :=
  decide (trade.amount = amount) && decide (trade.timestamp = timestamp) && !trade.removed

/-- The pending trades after `expire_trade`. -/
def mark [DecidableEq Amount] (amount : Amount) (timestamp : Time)
    (h : WindowHistory Amount Time) : List (TrackedTrade Amount Time) :=
  match h.pending.find? (named amount timestamp) with
  | none => h.pending
  | some trade =>
    ({ trade.subtractedFrom h.aggregator.digitCounts with removed := true } :
      TrackedTrade Amount Time).enter (h.pending.eraseP (named amount timestamp))

/-- The history after `_lazy_expire`. -/
def expire (config : WindowConfig Amount Time) (currentTs : Time)
    (h : WindowHistory Amount Time) : WindowHistory Amount Time where
  aggregator := h.aggregator.lazyExpire config currentTs
  pending := h.pending.dropWhile fun trade => trade.timestamp ≤ config.cutoff currentTs
  popped := h.popped ++ popAll h.aggregator.digitCounts
    (h.pending.takeWhile fun trade => trade.timestamp ≤ config.cutoff currentTs)

/-- One call. -/
def step [DecidableEq Amount] (config : WindowConfig Amount Time)
    (h : WindowHistory Amount Time) : WindowCall Amount Time → WindowHistory Amount Time
  | .addTrade amount timestamp =>
    let expired := h.expire config timestamp
    { aggregator := (exec (WindowAggregator.addTrade config amount timestamp) h.aggregator).2
      pending :=
        match leadingDigit config.tools amount with
        | .ok (some digit) =>
          ({ amount, timestamp, digit } : TrackedTrade Amount Time).enter expired.pending
        | _ => expired.pending
      popped := expired.popped }
  | .expireTrade amount timestamp =>
    { aggregator := (exec (WindowAggregator.expireTrade config amount timestamp) h.aggregator).2
      pending := h.mark amount timestamp
      popped := h.popped }

/-- What the counts are meant to be. -/
structure Exact (h : WindowHistory Amount Time) : Prop where
  /-- Each count is the number of accepted trades with the digit that were expired neither
  explicitly nor lazily. -/
  counts : ∀ digit, h.aggregator.digitCounts digit = counted digit h.pending
  /-- The total is the sum of the counts. -/
  total : h.aggregator.Totals
  /-- No trade was subtracted twice. -/
  once : ∀ trade ∈ h.pending ++ h.popped, trade.subtractions ≤ 1

/-- The condition under which a call keeps the counts exact. When entries are popped, a
trade of the digit of an explicitly expired one is popped before that one or was not counted.
An explicit expiry is of a counted trade, or of a digit without counted trades. -/
def Consistent [DecidableEq Amount] (config : WindowConfig Amount Time)
    (h : WindowHistory Amount Time) : WindowCall Amount Time → Prop
  | .addTrade _ timestamp =>
    ∀ trade ∈ h.pending, trade.removed = true → trade.timestamp ≤ config.cutoff timestamp →
      ∀ other ∈ h.pending, other.digit = trade.digit → other.removed = false →
        other.timestamp ≤ trade.timestamp
  | .expireTrade amount timestamp =>
    ∀ digit, leadingDigit config.tools amount = .ok (some digit) →
      (∃ trade ∈ h.pending, named amount timestamp trade = true) ∨
        ∀ trade ∈ h.pending, trade.digit = digit → trade.removed = true

end WindowHistory

/-- The invariant of a history with exact counts. -/
structure WindowHistory.Inv (config : WindowConfig Amount Time)
    (h : WindowHistory Amount Time) : Prop where
  /-- The counts are exact. -/
  exact : h.Exact
  /-- The heap has the entries of the pending trades. -/
  heap : h.aggregator.heap = h.pending.map entry
  /-- The pending trades are in their order. -/
  sorted : h.pending.Pairwise fun a b => a.rank ≤ b.rank
  /-- Their digits are those of their amounts. -/
  digits : ∀ trade ∈ h.pending, leadingDigit config.tools trade.amount = .ok (some trade.digit)
  /-- They were subtracted when they were expired explicitly. -/
  subtracted : ∀ trade ∈ h.pending, trade.subtractions = if trade.removed then 1 else 0

variable {config : WindowConfig Amount Time} {h : WindowHistory Amount Time}
  {trade : TrackedTrade Amount Time} {pending : List (TrackedTrade Amount Time)}
  {counts : Fin 9 → ℕ} {cutoff : Time}

namespace TrackedTrade

theorem rank_le_iff {a b : TrackedTrade Amount Time} :
    a.rank ≤ b.rank ↔ a.timestamp < b.timestamp ∨ a.timestamp = b.timestamp ∧
      (a.digit < b.digit ∨ a.digit = b.digit ∧ a.removed ≤ b.removed) := by
  unfold rank
  rw [Prod.Lex.toLex_le_toLex, Prod.Lex.toLex_le_toLex]

theorem timestamp_le_of_rank_le {a b : TrackedTrade Amount Time} (h : a.rank ≤ b.rank) :
    a.timestamp ≤ b.timestamp := by
  rcases rank_le_iff.mp h with hlt | ⟨heq, -⟩
  · exact hlt.le
  · exact heq.le

theorem entry_le_of_rank_le {a b : TrackedTrade Amount Time} (h : a.rank ≤ b.rank) :
    a.entry ≤ b.entry := by
  unfold entry
  rw [Prod.Lex.toLex_le_toLex]
  rcases rank_le_iff.mp h with hlt | ⟨heq, hlt | ⟨hdigit, -⟩⟩
  · exact .inl hlt
  · exact .inr ⟨heq, hlt.le⟩
  · exact .inr ⟨heq, hdigit.le⟩

theorem enter_perm (trade : TrackedTrade Amount Time) (pending : List (TrackedTrade Amount Time)) :
    (trade.enter pending).Perm (trade :: pending) :=
  List.perm_orderedInsert _ trade pending

theorem mem_enter {other : TrackedTrade Amount Time} :
    other ∈ trade.enter pending ↔ other = trade ∨ other ∈ pending := by
  rw [(enter_perm trade pending).mem_iff, List.mem_cons]

theorem sorted_enter (h : pending.Pairwise fun a b => a.rank ≤ b.rank) :
    (trade.enter pending).Pairwise fun a b => a.rank ≤ b.rank := by
  have : Std.Total fun a b : TrackedTrade Amount Time => a.rank ≤ b.rank :=
    ⟨fun a b => le_total a.rank b.rank⟩
  have : IsTrans (TrackedTrade Amount Time) fun a b => a.rank ≤ b.rank :=
    ⟨fun a b c => le_trans⟩
  exact h.orderedInsert trade pending

/-- The heap entries of pending trades are in the order of the heap. -/
theorem sorted_entries (h : pending.Pairwise fun a b => a.rank ≤ b.rank) :
    (pending.map entry).Pairwise (· ≤ ·) :=
  List.pairwise_map.mpr (h.imp entry_le_of_rank_le)

/-- Lists of pending trades with the same entries up to order have the same heap. -/
theorem entries_eq_of_perm {heap : List (Time ×ₗ Fin 9)}
    (h : pending.Pairwise fun a b => a.rank ≤ b.rank) (hheap : heap.Pairwise (· ≤ ·))
    (hperm : heap.Perm (pending.map entry)) : heap = pending.map entry :=
  List.Perm.eq_of_pairwise (fun _ _ _ _ => le_antisymm) hheap (sorted_entries h) hperm

theorem counted_enter (digit : Fin 9) :
    counted digit (trade.enter pending) =
      counted digit pending + if trade.digit = digit ∧ trade.removed = false then 1 else 0 := by
  unfold counted
  rw [(enter_perm trade pending).countP_eq, List.countP_cons]
  simp

omit [LinearOrder Time] in
theorem counted_pos_iff {digit : Fin 9} :
    0 < counted digit pending ↔ ∃ trade ∈ pending, trade.digit = digit ∧ trade.removed = false := by
  unfold counted
  rw [List.countP_pos_iff]
  simp

omit [LinearOrder Time] in
theorem counted_eq_zero_iff {digit : Fin 9} :
    counted digit pending = 0 ↔ ∀ trade ∈ pending, trade.digit = digit → trade.removed = true := by
  unfold counted
  rw [List.countP_eq_zero]
  simp

omit [LinearOrder Time] in
theorem counted_cons (digit : Fin 9) :
    counted digit (trade :: pending) =
      counted digit pending + if trade.digit = digit ∧ trade.removed = false then 1 else 0 := by
  unfold counted
  rw [List.countP_cons]
  simp

/-- What is pending behind a cutoff comes after it. -/
theorem lt_of_mem_dropWhile (h : pending.Pairwise fun a b => a.rank ≤ b.rank)
    (hmem : trade ∈ pending.dropWhile fun t => t.timestamp ≤ cutoff) :
    cutoff < trade.timestamp := by
  induction pending with
  | nil => cases hmem
  | cons first pending ih =>
    obtain ⟨hfirst, hrest⟩ := List.pairwise_cons.mp h
    by_cases hold : first.timestamp ≤ cutoff
    · rw [List.dropWhile_cons_of_pos (by simpa using hold)] at hmem
      exact ih hrest hmem
    · rw [List.dropWhile_cons_of_neg (by simpa using hold)] at hmem
      have hlt : cutoff < first.timestamp := not_le.mp hold
      rcases List.mem_cons.mp hmem with rfl | hmem
      · exact hlt
      · exact hlt.trans_le (timestamp_le_of_rank_le (hfirst trade hmem))

end TrackedTrade

/-- The counts after `_lazy_expire`. -/
theorem WindowAggregator.digitCounts_expireLoop (digit : Fin 9) (heap : List (Time ×ₗ Fin 9))
    (aggregator : WindowAggregator Time) :
    (aggregator.expireLoop cutoff heap).digitCounts digit =
      aggregator.digitCounts digit -
        (heap.takeWhile fun entry => (ofLex entry).1 ≤ cutoff).countP
          fun entry => (ofLex entry).2 = digit := by
  induction heap generalizing aggregator with
  | nil => simp [expireLoop]
  | cons entry heap ih =>
    unfold expireLoop
    by_cases h : (ofLex entry).1 ≤ cutoff
    · rw [if_pos h, ih, List.takeWhile_cons_of_pos (by simpa using h), List.countP_cons]
      have hsubtract : (aggregator.subtract (ofLex entry).2).digitCounts digit =
          aggregator.digitCounts digit - if (ofLex entry).2 = digit then 1 else 0 := by
        unfold subtract
        split_ifs with hpos heq heq
        · rw [← heq]
          simp
        · simp [Function.update_of_ne (Ne.symm heq)]
        · rw [← heq]
          omega
        · rfl
      rw [hsubtract]
      simp only [decide_eq_true_eq]
      omega
    · rw [if_neg h, List.takeWhile_cons_of_neg (by simpa using h)]
      rfl

omit [LinearOrder Time] in
/-- The counts are those of the remaining trades once the first one is popped, unless that one
is taken off again. -/
theorem counts_popped (hcounts : ∀ digit, counts digit = counted digit (trade :: pending))
    (honce : trade.removed = true → ¬0 < counts trade.digit) (digit : Fin 9) :
    Function.update counts trade.digit (counts trade.digit - 1) digit =
      counted digit pending := by
  by_cases hdigit : digit = trade.digit
  · subst hdigit
    have hcount := hcounts trade.digit
    rw [counted_cons] at hcount
    rw [Function.update_self]
    cases hremoved : trade.removed with
    | false =>
      simp only [hremoved, and_self, if_true] at hcount
      omega
    | true =>
      have hzero := honce hremoved
      simp only [hremoved, Bool.true_eq_false, and_false, if_false] at hcount
      omega
  · rw [Function.update_of_ne hdigit, hcounts, counted_cons]
    simp [Ne.symm hdigit]

/-- Where trades of explicitly expired ones are popped late, each popped trade is subtracted
if it is counted, and only then. -/
theorem popAll_of_consistent (hsorted : pending.Pairwise fun a b => a.rank ≤ b.rank)
    (hcounts : ∀ digit, counts digit = counted digit pending)
    (hlate : ∀ trade ∈ pending, trade.removed = true → trade.timestamp ≤ cutoff →
      ∀ other ∈ pending, other.digit = trade.digit → other.removed = false →
        other.timestamp ≤ trade.timestamp) :
    ∀ trade ∈ popAll counts (pending.takeWhile fun trade => trade.timestamp ≤ cutoff),
      ∃ old ∈ pending, trade.subtractions =
        old.subtractions + if old.removed then 0 else 1 := by
  induction pending generalizing counts with
  | nil =>
    intro trade hmem
    cases hmem
  | cons first pending ih =>
    obtain ⟨hfirst, hrest⟩ := List.pairwise_cons.mp hsorted
    by_cases hold : first.timestamp ≤ cutoff
    · rw [List.takeWhile_cons_of_pos (by simpa using hold)]
      have hpositive : 0 < counts first.digit ↔ first.removed = false := by
        rw [hcounts, counted_pos_iff]
        constructor
        · rintro ⟨other, hmem, hdigit, hlive⟩
          by_contra hremoved
          rw [Bool.not_eq_false] at hremoved
          have htime := hlate first List.mem_cons_self hremoved hold other hmem hdigit hlive
          rcases List.mem_cons.mp hmem with rfl | hmem
          · rw [hremoved] at hlive
            cases hlive
          · -- An equal entry of a counted trade would come first.
            rcases rank_le_iff.mp (hfirst other hmem) with hlt | ⟨-, hlt | ⟨-, hle⟩⟩
            · exact absurd htime (not_le.mpr hlt)
            · exact absurd hdigit (ne_of_gt hlt)
            · rw [hremoved, hlive] at hle
              exact absurd hle (by decide)
        · intro hlive
          exact ⟨first, List.mem_cons_self, rfl, hlive⟩
      have hnext := counts_popped hcounts fun hremoved hpos => by
        rw [hpositive.mp hpos] at hremoved
        cases hremoved
      intro trade hmem
      rcases List.mem_cons.mp hmem with rfl | hmem
      · refine ⟨first, List.mem_cons_self, ?_⟩
        simp only [subtractedFrom, hpositive]
        cases first.removed <;> rfl
      · obtain ⟨old, hold', hsubtractions⟩ := ih hrest hnext
          (fun t ht hr hc o ho => hlate t (List.mem_cons_of_mem _ ht) hr hc o
            (List.mem_cons_of_mem _ ho)) trade hmem
        exact ⟨old, List.mem_cons_of_mem _ hold', hsubtractions⟩
    · rw [List.takeWhile_cons_of_neg (by simpa using hold)]
      intro trade hmem
      cases hmem

/-- Where an explicitly expired trade is popped before a newer one of its digit, an explicitly
expired trade is subtracted again. -/
theorem popAll_of_early (hsorted : pending.Pairwise fun a b => a.rank ≤ b.rank)
    (hcounts : ∀ digit, counts digit = counted digit pending) {other : TrackedTrade Amount Time}
    (hmem : trade ∈ pending) (hremoved : trade.removed = true) (hold : trade.timestamp ≤ cutoff)
    (hother : other ∈ pending) (hdigit : other.digit = trade.digit)
    (hlive : other.removed = false) (hnewer : trade.timestamp < other.timestamp) :
    ∃ twice ∈ popAll counts (pending.takeWhile fun trade => trade.timestamp ≤ cutoff),
      ∃ old ∈ pending, old.removed = true ∧ twice.subtractions = old.subtractions + 1 := by
  induction pending generalizing counts with
  | nil => cases hmem
  | cons first pending ih =>
    obtain ⟨hfirst, hrest⟩ := List.pairwise_cons.mp hsorted
    have hfirstOld : first.timestamp ≤ cutoff := by
      rcases List.mem_cons.mp hmem with rfl | hmem
      · exact hold
      · exact (timestamp_le_of_rank_le (hfirst trade hmem)).trans hold
    rw [List.takeWhile_cons_of_pos (by simpa using hfirstOld)]
    by_cases hagain : first.removed = true ∧ 0 < counts first.digit
    · refine ⟨_, List.mem_cons_self, first, List.mem_cons_self, hagain.1, ?_⟩
      simp [subtractedFrom, hagain.2]
    · -- The first trade is neither of the two, so that they are found among the others.
      have hotherRest : other ∈ pending := by
        rcases List.mem_cons.mp hother with rfl | hother
        · rcases List.mem_cons.mp hmem with rfl | hmem
          · exact absurd hnewer (lt_irrefl _)
          · exact absurd (timestamp_le_of_rank_le (hfirst trade hmem)) (not_le.mpr hnewer)
        · exact hother
      have hmemRest : trade ∈ pending := by
        rcases List.mem_cons.mp hmem with rfl | hmem
        · refine absurd ⟨hremoved, ?_⟩ hagain
          rw [hcounts, counted_pos_iff]
          exact ⟨other, hother, hdigit, hlive⟩
        · exact hmem
      have hnext := counts_popped hcounts fun hfirstRemoved hpos => hagain ⟨hfirstRemoved, hpos⟩
      obtain ⟨twice, htwice, old, holdMem, holdRemoved, hsubtractions⟩ :=
        ih hrest hnext hmemRest hotherRest
      exact ⟨twice, List.mem_cons_of_mem _ htwice, old, List.mem_cons_of_mem _ holdMem,
        holdRemoved, hsubtractions⟩

namespace WindowHistory

variable {timestamp : Time} {amount : Amount}

/-- The heap after `_lazy_expire` has the entries of the trades that are still pending. -/
theorem Inv.heap_expire (hinv : h.Inv config) (timestamp : Time) :
    (h.expire config timestamp).aggregator.heap =
      (h.expire config timestamp).pending.map entry := by
  unfold WindowHistory.expire
  dsimp only
  rw [WindowAggregator.lazyExpire, WindowAggregator.heap_expireLoop, hinv.heap, List.dropWhile_map]
  rfl

/-- A count after `_lazy_expire` is what the popped trades of its digit leave. -/
theorem Inv.digitCounts_expire (hinv : h.Inv config) (timestamp : Time) (digit : Fin 9) :
    (h.expire config timestamp).aggregator.digitCounts digit =
      counted digit h.pending -
        (h.pending.takeWhile fun trade => trade.timestamp ≤ config.cutoff timestamp).countP
          fun trade => trade.digit = digit := by
  unfold WindowHistory.expire
  dsimp only
  rw [WindowAggregator.lazyExpire, WindowAggregator.digitCounts_expireLoop,
    hinv.exact.counts, hinv.heap, List.takeWhile_map, List.countP_map]
  rfl

/-- `_lazy_expire` keeps the invariant under the condition of `add_trade`. -/
theorem Inv.expire (hinv : h.Inv config) [DecidableEq Amount]
    (hlate : h.Consistent config (.addTrade amount timestamp)) :
    (h.expire config timestamp).Inv config := by
  have hkept : ∀ trade ∈ (h.expire config timestamp).pending, trade ∈ h.pending :=
    fun trade hmem => (List.dropWhile_sublist _).subset hmem
  constructor
  · constructor
    · intro digit
      rw [hinv.digitCounts_expire]
      have hsplit : counted digit h.pending =
          counted digit (h.pending.takeWhile fun t => t.timestamp ≤ config.cutoff timestamp) +
            counted digit (h.expire config timestamp).pending := by
        unfold counted
        rw [← List.countP_append]
        exact congrArg _ (List.takeWhile_append_dropWhile).symm
      by_cases hremoved : ∃ trade ∈ h.pending, trade.removed = true ∧ trade.digit = digit ∧
          trade.timestamp ≤ config.cutoff timestamp
      · -- All counted trades of the digit are popped.
        obtain ⟨trade, hmem, hremoved, rfl, hold⟩ := hremoved
        have hzero : counted trade.digit (h.expire config timestamp).pending = 0 := by
          rw [counted_eq_zero_iff]
          intro other hother hdigit
          by_contra hlive
          have hlater := lt_of_mem_dropWhile hinv.sorted hother
          have hearlier := hlate trade hmem hremoved hold other (hkept other hother) hdigit
            (by simpa using hlive)
          exact absurd (hearlier.trans hold) (not_le.mpr hlater)
        have hle : counted trade.digit
            (h.pending.takeWhile fun t => t.timestamp ≤ config.cutoff timestamp) ≤
            (h.pending.takeWhile fun t => t.timestamp ≤ config.cutoff timestamp).countP
              fun t => t.digit = trade.digit := by
          apply List.countP_mono_left
          intro t _ ht
          simp only [Bool.and_eq_true, decide_eq_true_eq] at ht ⊢
          exact ht.1
        omega
      · -- All popped trades of the digit are counted.
        have heq : (h.pending.takeWhile fun t => t.timestamp ≤ config.cutoff timestamp).countP
            (fun t => t.digit = digit) =
            counted digit (h.pending.takeWhile fun t => t.timestamp ≤ config.cutoff timestamp) := by
          apply List.countP_congr
          intro t ht
          have hold : t.timestamp ≤ config.cutoff timestamp := by
            simpa using List.mem_takeWhile_imp ht
          have hmem := (List.takeWhile_sublist _).subset ht
          have hlive : t.digit = digit → t.removed = false := by
            intro hdigit
            by_contra hne
            exact hremoved ⟨t, hmem, by simpa using hne, hdigit, hold⟩
          simp only [Bool.and_eq_true, Bool.not_eq_true', decide_eq_true_eq]
          exact ⟨fun hdigit => ⟨hdigit, hlive hdigit⟩, And.left⟩
        omega
    · exact hinv.exact.total.expireLoop _ _
    · intro trade hmem
      rw [List.mem_append] at hmem
      rcases hmem with hmem | hmem
      · exact hinv.exact.once trade (List.mem_append_left _ (hkept trade hmem))
      · rcases List.mem_append.mp hmem with hmem | hmem
        · exact hinv.exact.once trade (List.mem_append_right _ hmem)
        · obtain ⟨old, hold, hsubtractions⟩ :=
            popAll_of_consistent hinv.sorted hinv.exact.counts hlate trade hmem
          rw [hsubtractions, hinv.subtracted old hold]
          cases old.removed <;> decide
  · exact hinv.heap_expire timestamp
  · exact hinv.sorted.sublist (List.dropWhile_sublist _)
  · exact fun trade hmem => hinv.digits trade (hkept trade hmem)
  · exact fun trade hmem => hinv.subtracted trade (hkept trade hmem)

/-- Without the condition `_lazy_expire` subtracts a trade twice. -/
theorem Inv.twice_of_early (hinv : h.Inv config) [DecidableEq Amount]
    (hearly : ¬h.Consistent config (.addTrade amount timestamp)) :
    ∃ trade ∈ (h.expire config timestamp).popped, ¬trade.subtractions ≤ 1 := by
  unfold Consistent at hearly
  push Not at hearly
  obtain ⟨trade, hmem, hremoved, hold, other, hother, hdigit, hlive, hnewer⟩ := hearly
  obtain ⟨twice, htwice, old, holdMem, holdRemoved, hsubtractions⟩ :=
    popAll_of_early hinv.sorted hinv.exact.counts hmem hremoved hold hother hdigit hlive hnewer
  refine ⟨twice, List.mem_append_right _ htwice, ?_⟩
  have hbefore := hinv.subtracted old holdMem
  rw [holdRemoved, if_pos rfl] at hbefore
  omega

/-- Counting an accepted trade keeps the invariant. -/
theorem Inv.accept (hinv : h.Inv config) {digit : Fin 9}
    (hdigit : leadingDigit config.tools amount = .ok (some digit)) :
    ({ aggregator := h.aggregator.count timestamp digit
       pending := ({ amount, timestamp, digit } : TrackedTrade Amount Time).enter h.pending
       popped := h.popped } : WindowHistory Amount Time).Inv config := by
  have hmem {trade : TrackedTrade Amount Time}
      (h' : trade ∈ ({ amount, timestamp, digit } : TrackedTrade Amount Time).enter h.pending) :=
    mem_enter.mp h'
  constructor
  · constructor
    · intro other
      dsimp only [WindowAggregator.count]
      rw [counted_enter]
      by_cases hother : other = digit
      · subst hother
        simp [hinv.exact.counts]
      · simp [hother, Ne.symm hother, hinv.exact.counts]
    · exact hinv.exact.total.count digit
    · intro trade htrade
      rcases List.mem_append.mp htrade with htrade | htrade
      · rcases hmem htrade with rfl | htrade
        · exact Nat.zero_le 1
        · exact hinv.exact.once trade (List.mem_append_left _ htrade)
      · exact hinv.exact.once trade (List.mem_append_right _ htrade)
  · dsimp only [WindowAggregator.count]
    rw [hinv.heap]
    apply entries_eq_of_perm (sorted_enter hinv.sorted)
    · exact (sorted_entries hinv.sorted).orderedInsert _ _
    · have hentries := (enter_perm { amount, timestamp, digit } h.pending).map entry
      exact (List.perm_orderedInsert _ _ _).trans hentries.symm
  · exact sorted_enter hinv.sorted
  · intro trade htrade
    rcases hmem htrade with rfl | htrade
    · exact hdigit
    · exact hinv.digits trade htrade
  · intro trade htrade
    rcases hmem htrade with rfl | htrade
    · rfl
    · exact hinv.subtracted trade htrade

section

variable [DecidableEq Amount]

omit [LinearOrder Time] [DecidableEq Amount] in
/-- The trade that is found is the one that is taken out. -/
theorem perm_of_find?_eq_some {p : TrackedTrade Amount Time → Bool}
    (hfind : pending.find? p = some trade) : pending.Perm (trade :: pending.eraseP p) := by
  obtain ⟨hnamed, before, after, rfl, hbefore⟩ := List.find?_eq_some_iff_append.mp hfind
  have hnot : ∀ t ∈ before, ¬p t = true := fun t ht => by simpa using hbefore t ht
  rw [List.eraseP_append_right _ hnot, List.eraseP_cons_of_pos hnamed]
  exact List.perm_middle

/-- An explicit expiry of a counted trade keeps the invariant. -/
theorem Inv.mark_named (hinv : h.Inv config)
    (hfind : h.pending.find? (named amount timestamp) = some trade) :
    leadingDigit config.tools amount = .ok (some trade.digit) ∧
      ({ aggregator := h.aggregator.subtract trade.digit
         pending := h.mark amount timestamp
         popped := h.popped } : WindowHistory Amount Time).Inv config := by
  have hmem := List.mem_of_find?_eq_some hfind
  have hnamed := List.find?_some hfind
  simp only [named, Bool.and_eq_true, decide_eq_true_eq, Bool.not_eq_true'] at hnamed
  obtain ⟨⟨rfl, rfl⟩, hlive⟩ := hnamed
  have hpositive : 0 < h.aggregator.digitCounts trade.digit := by
    rw [hinv.exact.counts, counted_pos_iff]
    exact ⟨trade, hmem, rfl, hlive⟩
  have hperm := perm_of_find?_eq_some hfind
  set others := h.pending.eraseP (named trade.amount trade.timestamp) with hothers
  set marked : TrackedTrade Amount Time :=
    { trade.subtractedFrom h.aggregator.digitCounts with removed := true } with hmarked
  have hpending : h.mark trade.amount trade.timestamp = marked.enter others := by
    unfold mark
    rw [hfind]
  have hothersMem : ∀ t ∈ others, t ∈ h.pending := fun t ht => List.eraseP_subset ht
  have hsubtractions : marked.subtractions = 1 := by
    have hbefore := hinv.subtracted trade hmem
    rw [hlive] at hbefore
    simp [hmarked, subtractedFrom, hpositive, hbefore]
  rw [hpending]
  refine ⟨hinv.digits trade hmem, ⟨?_, ?_, ?_⟩, ?_, ?_, ?_, ?_⟩
  · intro digit
    rw [counted_enter]
    have hcount : counted digit h.pending = counted digit (trade :: others) :=
      hperm.countP_eq _
    rw [counted_cons] at hcount
    have hmarkedLive : ¬(marked.digit = digit ∧ marked.removed = false) := by
      simp [hmarked]
    rw [if_neg hmarkedLive]
    dsimp only [WindowAggregator.subtract]
    rw [if_pos hpositive]
    dsimp only
    by_cases hdigit : digit = trade.digit
    · subst hdigit
      rw [Function.update_self, hinv.exact.counts, hcount]
      simp [hlive]
    · rw [Function.update_of_ne hdigit, hinv.exact.counts, hcount]
      simp [Ne.symm hdigit]
  · exact hinv.exact.total.subtract trade.digit
  · intro t ht
    rcases List.mem_append.mp ht with ht | ht
    · rcases mem_enter.mp ht with rfl | ht
      · exact hsubtractions.le
      · exact hinv.exact.once t (List.mem_append_left _ (hothersMem t ht))
    · exact hinv.exact.once t (List.mem_append_right _ ht)
  · dsimp only [WindowAggregator.subtract]
    rw [if_pos hpositive]
    dsimp only
    rw [hinv.heap]
    apply entries_eq_of_perm (sorted_enter (hinv.sorted.sublist List.eraseP_sublist))
    · exact sorted_entries hinv.sorted
    · exact (hperm.map entry).trans ((enter_perm marked others).map entry).symm
  · exact sorted_enter (hinv.sorted.sublist List.eraseP_sublist)
  · intro t ht
    rcases mem_enter.mp ht with rfl | ht
    · exact hinv.digits trade hmem
    · exact hinv.digits t (hothersMem t ht)
  · intro t ht
    rcases mem_enter.mp ht with rfl | ht
    · exact hsubtractions
    · exact hinv.subtracted t (hothersMem t ht)

/-- A call that meets its condition keeps the invariant. -/
theorem Inv.step (hinv : h.Inv config) (call : WindowCall Amount Time)
    (hcall : h.Consistent config call) : (h.step config call).Inv config := by
  cases call with
  | addTrade amount timestamp =>
    have hexpired := hinv.expire hcall
    dsimp only [WindowHistory.step]
    rw [WindowAggregator.exec_addTrade]
    rcases hdigit : leadingDigit config.tools amount with _ | _ | digit
    · exact hexpired
    · exact hexpired
    · exact hexpired.accept hdigit
  | expireTrade amount timestamp =>
    dsimp only [WindowHistory.step]
    rw [WindowAggregator.exec_expireTrade]
    cases hfind : h.pending.find? (named amount timestamp) with
    | some trade =>
      obtain ⟨hdigit, hmarked⟩ := hinv.mark_named hfind
      simp only [hdigit]
      exact hmarked
    | none =>
      have hpending : h.mark amount timestamp = h.pending := by
        unfold mark
        rw [hfind]
      rw [hpending]
      split
      · next digit hdigit =>
        rcases hcall digit hdigit with ⟨trade, hmem, hnamed⟩ | hnone
        · exact absurd hnamed (List.find?_eq_none.mp hfind trade hmem)
        · have hzero : ¬0 < h.aggregator.digitCounts digit := by
            rw [hinv.exact.counts, counted_eq_zero_iff.mpr hnone]
            exact lt_irrefl 0
          rw [WindowAggregator.subtract, if_neg hzero]
          exact hinv
      · exact hinv

/-- A call that does not meet its condition leaves counts that are not exact. -/
theorem Inv.not_exact (hinv : h.Inv config) (call : WindowCall Amount Time)
    (hcall : ¬h.Consistent config call) : ¬(h.step config call).Exact := by
  cases call with
  | addTrade amount timestamp =>
    intro hexact
    obtain ⟨trade, hmem, htwice⟩ := hinv.twice_of_early hcall
    exact htwice (hexact.once trade (List.mem_append_right _ hmem))
  | expireTrade amount timestamp =>
    intro hexact
    unfold Consistent at hcall
    push Not at hcall
    obtain ⟨digit, hdigit, hunnamed, trade, hmem, rfl, hlive⟩ := hcall
    have hfind : h.pending.find? (named amount timestamp) = none :=
      List.find?_eq_none.mpr hunnamed
    have hpositive : 0 < counted trade.digit h.pending :=
      counted_pos_iff.mpr ⟨trade, hmem, rfl, by simpa using hlive⟩
    have hcount := hexact.counts trade.digit
    dsimp only [WindowHistory.step, mark] at hcount
    rw [WindowAggregator.exec_expireTrade, hfind] at hcount
    simp only [hdigit] at hcount
    rw [WindowAggregator.subtract, hinv.exact.counts, if_pos hpositive] at hcount
    dsimp only at hcount
    rw [Function.update_self] at hcount
    omega

omit [DecidableEq Amount] in
/-- A new aggregator meets the invariant. -/
theorem inv_start : ({} : WindowHistory Amount Time).Inv config where
  exact :=
    { counts := fun _ => rfl
      total := by simp [WindowAggregator.Totals]
      once := fun _ h => by cases h }
  heap := rfl
  sorted := List.Pairwise.nil
  digits := fun _ h => by cases h
  subtracted := fun _ h => by cases h

end

end WindowHistory

open WindowHistory in
/-- The counts are exact throughout a sequence of calls exactly when all calls meet their
conditions. -/
theorem window_counts_exact_iff [DecidableEq Amount] (config : WindowConfig Amount Time)
    (calls : List (WindowCall Amount Time)) :
    Always (WindowHistory.step config) Exact {} calls ↔
      Meets (WindowHistory.step config) (Consistent config) {} calls :=
  always_iff_meets (Inv config) (fun _ hinv => hinv.exact) (fun _ call hinv => hinv.step call)
    (fun _ call hinv => hinv.not_exact call) inv_start calls

end

/-- Whole amounts, with the arithmetic of the examples. -/
def wholeAmounts : AmountTools ℕ where
  isFinite _ := true
  nonpos amount := amount == 0
  scaledDigit amount := some (amount / 10 ^ ((Nat.toDigits 10 amount).length - 1) : ℕ)

/-- A window of one hour, in seconds. -/
def hourWindow : WindowConfig ℕ ℤ := ⟨wholeAmounts, fun currentTs => currentTs - 3600⟩

/-- Two trades of 15 and 17, the first of which is expired explicitly before its entry comes
up: after that the count of the digit 1 is zero, though the second trade is in the window. -/
theorem expired_trade_subtracted_twice :
    ¬Always (WindowHistory.step hourWindow) WindowHistory.Exact {}
      [.addTrade 15 0, .expireTrade 15 0, .addTrade 17 60, .addTrade 20 3630] := by
  intro h
  have hcounts := h.last.counts 0
  revert hcounts
  decide +kernel

end LedgerLens.Detection
