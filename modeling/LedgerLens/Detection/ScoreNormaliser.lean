import LedgerLens.Library.SortedSet
import Mathlib.Algebra.Order.Field.Rat
import Mathlib.Algebra.Order.Ring.Rat
import Mathlib.Data.List.Induction
import Mathlib.Data.Multiset.AddSub
import Mathlib.Data.String.Basic

/-!
# The calibration window of a pair

The normaliser keeps the scores of a pair in a sorted set, under their texts, and trims it by rank.
This file shows for which histories the window has the most recent scores. Scores that repeat or
that are smaller than an older one show the difference.

Percentiles are rational numbers.
-/

namespace LedgerLens.Detection.Normalisation

/-- The finite numbers of floating point. Their texts are different, as they are read back as the
numbers that they are made from. -/
structure FiniteFloats (F : Type) where
  /-- The number. -/
  value : F → ℚ
  /-- `str`. -/
  str : F → String
  /-- Different numbers have different texts. -/
  str_injective : Function.Injective str

/-- `SCORE_NORM_WINDOW_SIZE`. -/
def scoreNormWindowSize : ℕ := 1000

/-- `SCORE_NORM_MIN_SAMPLES`. -/
def scoreNormMinSamples : ℕ := 50

/-- `ASSET_PAIR_ALLOWLIST`. -/
def assetPairAllowlist : List String :=
  ["USDC:GA5ZSEJYBY3RJRC5AVCIA5MOP4RHTM335X2KGX3IHOJAPP5RE34K4KZVN"]

/-- The windows in Redis; a key that is missing is an empty set. -/
abbrev Windows := String → SortedSet ℚ String

/-- `ValueError` of `_validate_asset_pair`: `Invalid asset pair`. -/
inductive NormaliserError where
  | invalidAssetPair (assetPair : String)
  deriving DecidableEq

/-- `NormalisedScore`. -/
structure NormalisedScore where
  /-- `normalised_risk_score`. -/
  normalisedRiskScore : ℚ
  /-- `normalisation_skipped`. -/
  normalisationSkipped : Bool
  deriving DecidableEq

/-- `_validate_asset_pair`. -/
def validateAssetPair (assetPair : String) : Except NormaliserError Unit :=
  if assetPair ∈ assetPairAllowlist then .ok () else .error (.invalidAssetPair assetPair)

/-- `_get_key`. -/
def getKey (assetPair : String) : String := "score_window:" ++ assetPair

variable {F : Type} (floats : FiniteFloats F)

/-- What the pipeline of `add_score` does to a window. -/
def trimmed (window : SortedSet ℚ String) (score : F) : SortedSet ℚ String :=
  (window.zadd (floats.str score) (floats.value score)).zremrangebyrank 0
    (-scoreNormWindowSize - 1)

/-- `add_score`. -/
def addScore (windows : Windows) (assetPair : String) (score : F) :
    Except NormaliserError Windows := do
  validateAssetPair assetPair
  return Function.update windows (getKey assetPair)
    (trimmed floats (windows (getKey assetPair)) score)

/-- `normalise`. -/
def normalise (windows : Windows) (assetPair : String) (score : F) :
    Except NormaliserError NormalisedScore := do
  validateAssetPair assetPair
  let window := windows (getKey assetPair)
  if window.length < scoreNormMinSamples then
    return ⟨floats.value score, true⟩
  let scores := window.scores.insertionSort (· ≤ ·)
  let rank := scores.countP (· < floats.value score)
  return ⟨(rank + 1 / 2) / scores.length, false⟩

/-- Calls of `add_score` on one pair. -/
def addScores (windows : Windows) (assetPair : String) (history : List F) :
    Except NormaliserError Windows :=
  history.foldlM (fun windows score => addScore floats windows assetPair score) windows

/-- The most recent scores of a history. -/
def recent (history : List F) : List F := history.drop (history.length - scoreNormWindowSize)

/-- The window has the most recent scores, and scores are normalised by their ranks in it. -/
structure Calibrated (windows : Windows) (assetPair : String) (history : List F) : Prop where
  /-- The window has the most recent scores. -/
  window : ((windows (getKey assetPair)).scores : Multiset ℚ) =
    ((recent history).map floats.value : List ℚ)
  /-- A score is normalised by the number of smaller ones, if there are enough. -/
  normalise : ∀ score, normalise floats windows assetPair score =
    .ok (if min history.length scoreNormWindowSize < scoreNormMinSamples then
        ⟨floats.value score, true⟩
      else
        ⟨((recent history).countP (fun s => floats.value s < floats.value score) + 1 / 2) /
          (recent history).length, false⟩)

/-- A score does not disturb the window: its text is new, and the score that the window must lose
is the smallest one; or its text is not new, but it is the score that the window must lose. -/
def Undisturbed (window : SortedSet ℚ String) (history : List F) (score : F) : Prop :=
  if floats.str score ∈ window.members then
    scoreNormWindowSize ≤ history.length ∧
      ∀ oldest ∈ (recent history).head?, floats.value oldest = floats.value score
  else
    scoreNormWindowSize ≤ history.length → ∀ oldest ∈ (recent history).head?,
      ∀ other ∈ floats.value score :: window.scores, floats.value oldest ≤ other

variable {floats}

theorem length_recent (history : List F) :
    (recent history).length = min history.length scoreNormWindowSize := by
  unfold recent
  rw [List.length_drop]
  omega

/-- A new score is one more recent score, or takes the place of the oldest one. -/
theorem recent_concat (history : List F) (score : F) : recent (history ++ [score]) =
    if history.length < scoreNormWindowSize then recent history ++ [score]
    else (recent history).tail ++ [score] := by
  have hpos : 0 < scoreNormWindowSize := by decide
  unfold recent
  rw [List.length_append, List.length_singleton]
  generalize scoreNormWindowSize = size at hpos
  split_ifs with hlt
  · rw [show history.length + 1 - size = 0 by omega, show history.length - size = 0 by omega,
      List.drop_zero, List.drop_zero]
  · rw [List.tail_drop, List.drop_append_of_le_length (by omega),
      show history.length + 1 - size = history.length - size + 1 by omega]

section Window

variable {window : SortedSet ℚ String} {history : List F} {score : F}

variable (floats) in
/-- The members of a window are the texts of its scores. -/
def Texts (window : SortedSet ℚ String) : Prop :=
  ∀ e ∈ window.entries, ∃ x, e = toLex (floats.value x, floats.str x)

/-- A text that is in the window is there with its score. -/
theorem Texts.mem_entries (h : Texts floats window) (hmem : floats.str score ∈ window.members) :
    toLex (floats.value score, floats.str score) ∈ window.entries := by
  obtain ⟨value, hvalue⟩ := SortedSet.mem_members_iff.mp hmem
  obtain ⟨x, hx⟩ := h _ hvalue
  have hpair := congrArg ofLex hx
  obtain rfl := floats.str_injective (congrArg Prod.snd hpair)
  rwa [hx] at hvalue

/-- Adding a score keeps that members are texts. -/
theorem Texts.trimmed (h : Texts floats window) (score : F) :
    Texts floats (trimmed floats window score) := by
  intro e he
  have hadded := (SortedSet.withoutRange_sublist _ _ _).mem he
  rcases (List.mem_orderedInsert _).mp hadded with rfl | hold
  · exact ⟨score, rfl⟩
  · exact h e (List.mem_filter.mp hold).1

variable (floats) in
/-- The window has the most recent scores. -/
def HasRecent (window : SortedSet ℚ String) (history : List F) : Prop :=
  (window.scores : Multiset ℚ) = ((recent history).map floats.value : List ℚ)

theorem hasRecent_empty : HasRecent floats .empty [] := by
  unfold HasRecent recent
  rw [List.drop_nil]
  rfl

theorem HasRecent.length_eq (h : HasRecent floats window history) :
    window.length = min history.length scoreNormWindowSize := by
  have hcard := congrArg Multiset.card h
  rwa [Multiset.coe_card, Multiset.coe_card, List.length_map, SortedSet.length_scores,
    length_recent] at hcard

/-- A window that is full has an oldest score. -/
theorem recent_eq_cons (hfull : scoreNormWindowSize ≤ history.length) :
    ∃ oldest rest, recent history = oldest :: rest := by
  have hlength := length_recent history
  cases hrecent : recent history with
  | nil =>
    rw [hrecent, min_eq_right hfull] at hlength
    cases hlength
  | cons oldest rest => exact ⟨oldest, rest, rfl⟩

theorem map_concat_coe (xs : List F) (score : F) :
    (((xs ++ [score]).map floats.value : List ℚ) : Multiset ℚ) =
      floats.value score ::ₘ (xs.map floats.value : List ℚ) := by
  rw [List.map_append, List.map_singleton, Multiset.cons_coe, Multiset.coe_eq_coe]
  exact List.perm_append_singleton _ _

/-- A score whose text is in the window already leaves the window as it is. -/
theorem hasRecent_trimmed_of_mem (htexts : Texts floats window)
    (h : HasRecent floats window history) (hmem : floats.str score ∈ window.members) :
    HasRecent floats (trimmed floats window score) (history ++ [score]) ↔
      Undisturbed floats window history score := by
  have hentries := SortedSet.entries_zadd_of_mem (htexts.mem_entries hmem)
  have hlength : (window.zadd (floats.str score) (floats.value score)).length ≤
      scoreNormWindowSize := by
    have hle := h.length_eq
    unfold SortedSet.length at hle ⊢
    rw [hentries, hle]
    exact min_le_right _ _
  have hscores : (trimmed floats window score).scores = window.scores := by
    unfold trimmed
    rw [SortedSet.zremrangebyrank_of_length_le hlength, SortedSet.scores, hentries]
    rfl
  unfold HasRecent Undisturbed
  rw [if_pos hmem, hscores, h, recent_concat]
  split_ifs with hlt
  · refine iff_of_false (fun heq => ?_) (fun hfull => hlt.not_ge hfull.1)
    have hcard := congrArg Multiset.card heq
    simp at hcard
  · obtain ⟨oldest, rest, hrecent⟩ := recent_eq_cons (not_lt.mp hlt)
    rw [hrecent, List.tail_cons, List.head?_cons, map_concat_coe, List.map_cons,
      ← Multiset.cons_coe, Multiset.cons_inj_left]
    simp only [Option.mem_some_iff, forall_eq', not_lt.mp hlt, true_and]

/-- A score whose text is new takes the place of the smallest one. -/
theorem hasRecent_trimmed_of_notMem (h : HasRecent floats window history)
    (hmem : floats.str score ∉ window.members) :
    HasRecent floats (trimmed floats window score) (history ++ [score]) ↔
      Undisturbed floats window history score := by
  have hperm : (window.zadd (floats.str score) (floats.value score)).entries.Perm
      (toLex (floats.value score, floats.str score) :: window.entries) :=
    SortedSet.perm_zadd hmem
  have hscores : ((window.zadd (floats.str score) (floats.value score)).scores : Multiset ℚ) =
      floats.value score ::ₘ window.scores := by
    rw [Multiset.cons_coe, Multiset.coe_eq_coe]
    exact hperm.map _
  have hlength : (window.zadd (floats.str score) (floats.value score)).length =
      window.length + 1 := hperm.length_eq
  rw [h.length_eq] at hlength
  unfold Undisturbed
  rw [if_neg hmem]
  rcases lt_or_ge history.length scoreNormWindowSize with hlt | hfull
  · rw [min_eq_left hlt.le] at hlength
    refine iff_of_true ?_ fun hfull => absurd hfull hlt.not_ge
    unfold HasRecent trimmed
    rw [SortedSet.zremrangebyrank_of_length_le (hlength.trans_le hlt), hscores, h, recent_concat,
      if_pos hlt, map_concat_coe]
  · obtain ⟨oldest, rest, hrecent⟩ := recent_eq_cons hfull
    rw [min_eq_right hfull] at hlength
    cases hentries : (window.zadd (floats.str score) (floats.value score)).entries with
    | nil =>
      unfold SortedSet.length at hlength
      rw [hentries] at hlength
      cases hlength
    | cons e entries =>
      have hleft : (trimmed floats window score).scores = entries.map fun e => (ofLex e).1 := by
        unfold trimmed SortedSet.scores
        rw [SortedSet.entries_zremrangebyrank_of_length_eq hlength, hentries, List.tail_cons]
      have hold : (window.scores : Multiset ℚ) =
          floats.value oldest ::ₘ (rest.map floats.value : List ℚ) := by
        rw [h, hrecent, List.map_cons, Multiset.cons_coe]
      -- the first entry and those that are left are the scores of the window and the new one
      have hall : (ofLex e).1 ::ₘ ((entries.map fun e => (ofLex e).1 : List ℚ) : Multiset ℚ) =
          floats.value score ::ₘ window.scores := by
        rw [← hscores, SortedSet.scores, hentries, List.map_cons, Multiset.cons_coe]
      have hfirst (other : ℚ) (hother : other ∈ floats.value score :: window.scores) :
          (ofLex e).1 ≤ other := by
        refine SortedSet.le_of_entries_eq_cons hentries ?_
        rw [← Multiset.mem_coe, hscores, Multiset.cons_coe]
        exact hother
      unfold HasRecent
      rw [hleft, recent_concat, if_neg hfull.not_gt, hrecent, List.tail_cons, map_concat_coe]
      constructor
      · intro heq _ x hx other hother
        obtain rfl := Option.some.inj hx
        rw [heq, hold, Multiset.cons_swap, Multiset.cons_inj_right, Multiset.cons_inj_left] at hall
        exact hall ▸ hfirst other hother
      · intro hle
        have hle := hle hfull oldest rfl
        have hmem (x : ℚ) : x ∈ floats.value score :: window.scores ↔
            x ∈ (ofLex e).1 ::ₘ ((entries.map fun e => (ofLex e).1 : List ℚ) : Multiset ℚ) := by
          rw [hall, Multiset.cons_coe]
          rfl
        have holdest : floats.value oldest ∈ floats.value score :: window.scores := by
          refine List.mem_cons_of_mem _ ?_
          rw [← Multiset.mem_coe, hold]
          exact Multiset.mem_cons_self _ _
        have heq : (ofLex e).1 = floats.value oldest :=
          le_antisymm (hfirst _ holdest) (hle _ ((hmem _).mpr (Multiset.mem_cons_self _ _)))
        rw [hold, heq, Multiset.cons_swap, Multiset.cons_inj_right] at hall
        exact hall

theorem hasRecent_trimmed_iff (htexts : Texts floats window) (h : HasRecent floats window history) :
    HasRecent floats (trimmed floats window score) (history ++ [score]) ↔
      Undisturbed floats window history score := by
  by_cases hmem : floats.str score ∈ window.members
  · exact hasRecent_trimmed_of_mem htexts h hmem
  · exact hasRecent_trimmed_of_notMem h hmem

end Window

section Run

variable {windows : Windows} {assetPair : String}

/-- A window that has the most recent scores normalises by them. -/
theorem HasRecent.normalise_eq {history : List F} (hpair : assetPair ∈ assetPairAllowlist)
    (h : HasRecent floats (windows (getKey assetPair)) history) (score : F) :
    normalise floats windows assetPair score =
      .ok (if min history.length scoreNormWindowSize < scoreNormMinSamples then
          ⟨floats.value score, true⟩
        else
          ⟨((recent history).countP (fun s => floats.value s < floats.value score) + 1 / 2) /
            (recent history).length, false⟩) := by
  have hvalidate : validateAssetPair assetPair = .ok () := if_pos hpair
  have hperm := Multiset.coe_eq_coe.mp h
  have hcount : ((windows (getKey assetPair)).scores.insertionSort (· ≤ ·)).countP
        (fun s => s < floats.value score) =
      (recent history).countP fun s => floats.value s < floats.value score := by
    rw [((List.perm_insertionSort _ _).trans hperm).countP_eq, List.countP_map]
    rfl
  have hlength : ((windows (getKey assetPair)).scores.insertionSort (· ≤ ·)).length =
      (recent history).length := by
    rw [List.length_insertionSort, hperm.length_eq, List.length_map]
  unfold normalise
  rw [hvalidate]
  simp only [bind, Except.bind, pure, Except.pure]
  rw [h.length_eq, hcount, hlength]
  split_ifs <;> rfl

/-- Calls of `add_score` change the window of the pair. -/
theorem addScores_eq (hpair : assetPair ∈ assetPairAllowlist) (history : List F) :
    addScores floats windows assetPair history = .ok (Function.update windows (getKey assetPair)
      (history.foldl (trimmed floats) (windows (getKey assetPair)))) := by
  have hvalidate : validateAssetPair assetPair = .ok () := if_pos hpair
  induction history generalizing windows with
  | nil => exact congrArg _ (Function.update_eq_self _ _).symm
  | cons score history ih =>
    have hadd : addScore floats windows assetPair score = .ok (Function.update windows
        (getKey assetPair) (trimmed floats (windows (getKey assetPair)) score)) := by
      unfold addScore
      rw [hvalidate]
      rfl
    have hstep : addScores floats windows assetPair (score :: history) =
        addScores floats (Function.update windows (getKey assetPair)
          (trimmed floats (windows (getKey assetPair)) score)) assetPair history := by
      unfold addScores
      rw [List.foldlM_cons, hadd]
      rfl
    rw [hstep, ih, Function.update_idem, Function.update_self, List.foldl_cons]

theorem calibrated_iff_hasRecent (hpair : assetPair ∈ assetPairAllowlist) {history : List F} :
    Calibrated floats windows assetPair history ↔
      HasRecent floats (windows (getKey assetPair)) history :=
  ⟨fun h => h.window, fun h => ⟨h, h.normalise_eq hpair⟩⟩

theorem texts_foldl (history : List F) :
    Texts floats (history.foldl (trimmed floats) .empty) := by
  induction history using List.reverseRecOn with
  | nil => exact fun e he => absurd he List.not_mem_nil
  | append_singleton history score ih =>
    rw [List.foldl_concat]
    exact ih.trimmed score

/-- After every call the window has the most recent scores, and scores are normalised by them,
exactly if no call disturbs the window. -/
theorem calibrated_iff (floats : FiniteFloats F) (hpair : assetPair ∈ assetPairAllowlist)
    (hnew : windows (getKey assetPair) = .empty) (history : List F) :
    (∀ before, before <+: history → ∃ after, addScores floats windows assetPair before = .ok after ∧
        Calibrated floats after assetPair before) ↔
      ∀ before score, before ++ [score] <+: history → ∀ after,
        addScores floats windows assetPair before = .ok after →
          Undisturbed floats (after (getKey assetPair)) before score := by
  have hcalibrated (before : List F) :
      (∃ after, addScores floats windows assetPair before = .ok after ∧
        Calibrated floats after assetPair before) ↔
        HasRecent floats (before.foldl (trimmed floats) .empty) before := by
    simp only [addScores_eq hpair, Except.ok.injEq, exists_eq_left', hnew,
      calibrated_iff_hasRecent hpair, Function.update_self]
  have hundisturbed (before : List F) (score : F) :
      (∀ after, addScores floats windows assetPair before = .ok after →
        Undisturbed floats (after (getKey assetPair)) before score) ↔
        Undisturbed floats (before.foldl (trimmed floats) .empty) before score := by
    simp only [addScores_eq hpair, Except.ok.injEq, forall_eq', hnew, Function.update_self]
  have hstep (before : List F) (score : F)
      (h : HasRecent floats (before.foldl (trimmed floats) .empty) before) :
      HasRecent floats ((before ++ [score]).foldl (trimmed floats) .empty) (before ++ [score]) ↔
        Undisturbed floats (before.foldl (trimmed floats) .empty) before score := by
    rw [List.foldl_concat]
    exact hasRecent_trimmed_iff (texts_foldl before) h
  simp only [hcalibrated, hundisturbed]
  constructor
  · intro hall before score hprefixes
    have hbefore := hall before ((List.prefix_append _ _).trans hprefixes)
    exact (hstep before score hbefore).mp (hall _ hprefixes)
  · intro hall before hprefixes
    induction before using List.reverseRecOn with
    | nil => exact hasRecent_empty
    | append_singleton before score ih =>
      have hbefore := ih ((List.prefix_append _ _).trans hprefixes)
      exact (hstep before score hbefore).mpr (hall before score hprefixes)

end Run

/-- Two scores and their texts. -/
private def twoScores : FiniteFloats Bool where
  value := fun x => if x then 2 else 1
  str := fun x => if x then "2.0" else "1.0"
  str_injective := by
    intro x y h
    cases x <;> cases y <;> first | rfl | exact absurd h (by decide)

/-- A pair that is allowed. -/
private def usdcPair : String := "USDC:GA5ZSEJYBY3RJRC5AVCIA5MOP4RHTM335X2KGX3IHOJAPP5RE34K4KZVN"

/-- A second score with a new text does not disturb the window. -/
theorem calibrated_twoScores : ∃ after,
    addScores twoScores (fun _ => .empty) usdcPair [false, true] = .ok after ∧
      Calibrated twoScores after usdcPair [false, true] := by
  refine (calibrated_iff twoScores (List.mem_singleton.mpr rfl) rfl [false, true]).mpr ?_
    [false, true] (List.prefix_refl _)
  intro before score hprefixes after hafter
  rw [addScores_eq (List.mem_singleton.mpr rfl)] at hafter
  obtain rfl := Except.ok.inj hafter
  rw [Function.update_self]
  have hfew : ¬scoreNormWindowSize ≤ before.length := by
    have hle := hprefixes.length_le
    rw [List.length_append] at hle
    exact fun hfull => absurd (hfull.trans (Nat.le_of_add_right_le hle)) (by decide)
  unfold Undisturbed
  rw [if_neg]
  · exact fun hfull => absurd hfull hfew
  -- the window is empty before the first score and has the first one before the second
  · rcases before with _ | ⟨first, _ | ⟨second, rest⟩⟩
    · exact List.not_mem_nil
    · obtain ⟨rfl, hscore⟩ := List.cons_prefix_cons.mp hprefixes
      obtain ⟨rfl, -⟩ := List.cons_prefix_cons.mp hscore
      decide +kernel
    · have hle := hprefixes.length_le
      simp at hle

/-- A score that comes twice is in the window once. -/
theorem calibrated_repeated :
    (addScores twoScores (fun _ => .empty) usdcPair [false, false]).map
        (fun windows => (windows (getKey usdcPair)).scores) = .ok [1] ∧
      ¬∀ (floats : FiniteFloats Bool) (history : List Bool), ∃ after,
        addScores floats (fun _ => .empty) usdcPair history = .ok after ∧
          Calibrated floats after usdcPair history := by
  have hscores : (addScores twoScores (fun _ => .empty) usdcPair [false, false]).map
      (fun windows => (windows (getKey usdcPair)).scores) = .ok [1] := by decide +kernel
  refine ⟨hscores, fun hall => ?_⟩
  obtain ⟨after, hafter, hcalibrated⟩ := hall twoScores [false, false]
  rw [hafter] at hscores
  have hwindow := hcalibrated.window
  rw [show (after (getKey usdcPair)).scores = [1] from Except.ok.inj hscores] at hwindow
  exact absurd (congrArg Multiset.card hwindow) (by decide)

end LedgerLens.Detection.Normalisation
