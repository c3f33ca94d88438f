import LedgerLens.Library.Runs
import Mathlib.Data.Finset.Basic
import Mathlib.Data.Rat.Defs

/-!
# Allowlist and denylist of wallets

`ListOverride` reads two lists of wallets from files and reads them again from time to time.
Administrative changes of the lists are made in memory, so that reading the files again undoes
them. This file says which checks still answer according to all changes that were made.
-/

namespace LedgerLens.Detection

open Transition

/-- An entry of a list in a file: a string, or a value that is not one. -/
inductive ListItem where
  /-- A string. -/
  | str (wallet : String)
  /-- Another value; arrays and objects cannot be put into a set. -/
  | other (hashable : Bool)
  deriving DecidableEq

/-- The wallet that an entry can name. -/
def ListItem.wallet? : ListItem → Option String
  | str wallet => some wallet
  | other _ => none

/-- What `_reload` finds in the place of a file. -/
inductive ListFile where
  /-- There is no file. -/
  | missing
  /-- It cannot be opened or is not JSON. -/
  | unreadable
  /-- It holds another value than a list. -/
  | notAList
  /-- It holds a list. -/
  | list (items : List ListItem)

/-- The wallets that `_reload` takes from a file. -/
def ListFile.load (file : ListFile) : Finset String :=
  match file with
  | missing | unreadable | notAList => ∅
  | list items => if .other false ∈ items then ∅ else (items.filterMap ListItem.wallet?).toFinset

/-- The two lists. -/
inductive OverrideList where
  | allow
  | deny
  deriving DecidableEq

/-- An administrative change: a wallet is put on a list or taken off it. -/
structure Mutation where
  /-- The list. -/
  list : OverrideList
  /-- The wallet. -/
  wallet : String
  /-- Whether the wallet is on the list afterwards. -/
  listed : Bool
  deriving DecidableEq

/-- `ListOverride`. -/
structure ListOverride where
  /-- `_allowlist` and `_denylist`. -/
  lists : OverrideList → Finset String
  /-- `_last_loaded`. -/
  lastLoaded : ℚ

/-- The answer of `check` for a wallet. -/
def overrideAnswer (allowed denied : Bool) : Option ℕ :=
  if allowed then some 0 else if denied then some 100 else none

namespace ListOverride

/-- `_reload`, and with it `__init__`. -/
def reload (files : OverrideList → ListFile) (now : ℚ) : ListOverride where
  lists list := (files list).load
  lastLoaded := now

/-- `add_to_allowlist`, `remove_from_allowlist`, `add_to_denylist` and
`remove_from_denylist`. -/
def mutate (o : ListOverride) (m : Mutation) : ListOverride :=
  { o with
    lists := Function.update o.lists m.list
      (if m.listed then insert m.wallet (o.lists m.list) else (o.lists m.list).erase m.wallet) }

/-- A check at this time reads the files again. -/
def Reloads (interval : ℤ) (o : ListOverride) (now : ℚ) : Prop := interval ≤ now - o.lastLoaded

instance (interval : ℤ) (o : ListOverride) (now : ℚ) : Decidable (o.Reloads interval now) :=
  inferInstanceAs (Decidable (_ ≤ _))

/-- `check`, with `LIST_RELOAD_INTERVAL_SECONDS` and the clock before and after loading. -/
def check (interval : ℤ) (files : OverrideList → ListFile) (o : ListOverride) (now loadedAt : ℚ)
    (wallet : String) : Option ℕ × ListOverride :=
  let o := if o.Reloads interval now then reload files loadedAt else o
  (overrideAnswer (decide (wallet ∈ o.lists .allow)) (decide (wallet ∈ o.lists .deny)), o)

end ListOverride

/-- The state of a wallet on a list after some changes: that of the last change, or else what
the file says. -/
def stateAfter (files : OverrideList → ListFile) (mutations : List Mutation) (list : OverrideList)
    (wallet : String) : Bool :=
  match (mutations.filter fun m => m.list = list ∧ m.wallet = wallet).getLast? with
  | some m => m.listed
  | none => decide (wallet ∈ (files list).load)

/-- The answer according to some changes. -/
def answerAfter (files : OverrideList → ListFile) (mutations : List Mutation) (wallet : String) :
    Option ℕ :=
  overrideAnswer (stateAfter files mutations .allow wallet)
    (stateAfter files mutations .deny wallet)

/-- A call of the override. -/
inductive OverrideCall where
  /-- One of the four changes. -/
  | mutate (m : Mutation)
  /-- `check`, with the clock before and after loading. -/
  | check (wallet : String) (now loadedAt : ℚ)

/-- An override with what has been done to it. -/
structure OverrideHistory where
  /-- The override. -/
  override : ListOverride
  /-- All changes. -/
  mutations : List Mutation := []
  /-- The changes since the files were last read. -/
  recent : List Mutation := []
  /-- For each check the answer according to all changes and the answer given. -/
  answers : List (Option ℕ × Option ℕ) := []

namespace OverrideHistory

variable (interval : ℤ) (files : OverrideList → ListFile)

/-- The changes that a check at this time goes by. -/
def remaining (h : OverrideHistory) (now : ℚ) : List Mutation :=
  if h.override.Reloads interval now then [] else h.recent

/-- One call. -/
def step (h : OverrideHistory) (call : OverrideCall) : OverrideHistory :=
  match call with
  | .mutate m =>
    { h with override := h.override.mutate m, mutations := h.mutations ++ [m],
             recent := h.recent ++ [m] }
  | .check wallet now loadedAt =>
    let r := h.override.check interval files now loadedAt wallet
    { h with override := r.2, recent := h.remaining interval now,
             answers := h.answers ++ [(answerAfter files h.mutations wallet, r.1)] }

/-- Every check was answered according to all changes made before. -/
def ChangesInForce (h : OverrideHistory) : Prop := ∀ answer ∈ h.answers, answer.2 = answer.1

/-- The condition for that: the changes since the files were last read give a check the same
answer as all changes. A check that reads the files again finds no such changes. -/
def RecentSuffice (h : OverrideHistory) (call : OverrideCall) : Prop :=
  match call with
  | .mutate _ => True
  | .check wallet now _ =>
    answerAfter files (h.remaining interval now) wallet = answerAfter files h.mutations wallet

/-- The invariant: the lists are those of the files with the changes since then, and the checks
so far were answered right. -/
structure Inv (h : OverrideHistory) : Prop where
  /-- The lists in memory. -/
  lists : ∀ list wallet, decide (wallet ∈ h.override.lists list) =
    stateAfter files h.recent list wallet
  /-- The answers. -/
  answers : h.ChangesInForce

variable {interval files} {h : OverrideHistory}

/-- The state of a wallet after one more change. -/
theorem stateAfter_append (mutations : List Mutation) (m : Mutation) (list : OverrideList)
    (wallet : String) :
    stateAfter files (mutations ++ [m]) list wallet =
      if m.list = list ∧ m.wallet = wallet then m.listed
      else stateAfter files mutations list wallet := by
  unfold stateAfter
  rw [List.filter_append]
  by_cases hm : m.list = list ∧ m.wallet = wallet
  · simp [hm]
  · simp [hm]

/-- The lists after a change. -/
theorem mem_lists_mutate (o : ListOverride) (m : Mutation) (list : OverrideList)
    (wallet : String) :
    decide (wallet ∈ (o.mutate m).lists list) =
      if m.list = list ∧ m.wallet = wallet then m.listed
      else decide (wallet ∈ o.lists list) := by
  unfold ListOverride.mutate
  by_cases hlist : list = m.list
  · subst hlist
    by_cases hwallet : wallet = m.wallet
    · subst hwallet
      cases hlisted : m.listed <;> simp
    · have hwallet' : m.wallet ≠ wallet := fun heq => hwallet heq.symm
      cases hlisted : m.listed <;> simp [hwallet, hwallet']
  · have hlist' : m.list ≠ list := fun heq => hlist heq.symm
    simp [hlist, hlist']

/-- What a check answers, and the lists that it leaves. -/
theorem Inv.check (hinv : h.Inv files) (interval : ℤ) (wallet : String) (now loadedAt : ℚ) :
    (h.override.check interval files now loadedAt wallet).1 =
        answerAfter files (h.remaining interval now) wallet ∧
      ∀ list wallet', decide (wallet' ∈
          (h.override.check interval files now loadedAt wallet).2.lists list) =
        stateAfter files (h.remaining interval now) list wallet' := by
  unfold ListOverride.check remaining answerAfter
  dsimp only
  split_ifs with hreloads
  · exact ⟨rfl, fun _ _ => rfl⟩
  · exact ⟨by rw [hinv.lists, hinv.lists], hinv.lists⟩

/-- A step under the condition keeps the invariant. -/
theorem Inv.step (hinv : h.Inv files) {call : OverrideCall}
    (hcall : h.RecentSuffice interval files call) : (h.step interval files call).Inv files := by
  cases call with
  | mutate m =>
    constructor
    case lists =>
      intro list wallet
      have hstate : stateAfter files (h.recent ++ [m]) list wallet = _ :=
        stateAfter_append h.recent m list wallet
      have hlists := mem_lists_mutate h.override m list wallet
      rw [hinv.lists, ← hstate] at hlists
      exact hlists
    case answers => exact hinv.answers
  | check wallet now loadedAt =>
    obtain ⟨hanswer, hlists⟩ := hinv.check interval wallet now loadedAt
    constructor
    case lists => exact hlists
    case answers =>
      intro answer hmem
      obtain hold | hnew := List.mem_append.mp hmem
      · exact hinv.answers answer hold
      · rw [List.mem_singleton.mp hnew]
        exact hanswer.trans hcall

/-- A check that does not meet the condition is answered otherwise. -/
theorem Inv.not_changesInForce (hinv : h.Inv files) {call : OverrideCall}
    (hcall : ¬h.RecentSuffice interval files call) :
    ¬(h.step interval files call).ChangesInForce := by
  cases call with
  | mutate m => exact absurd trivial hcall
  | check wallet now loadedAt =>
    obtain ⟨hanswer, -⟩ := hinv.check interval wallet now loadedAt
    intro hforce
    have hright := hforce _ (List.mem_append_right _ (List.mem_singleton_self _))
    exact hcall (hanswer.symm.trans hright)

end OverrideHistory

/-- In every sequence of changes and checks at any times, all checks are answered according to
all changes made before exactly if for each check the changes since the files were last read
give the same answer. -/
theorem always_changesInForce_iff (interval : ℤ) (files : OverrideList → ListFile) (start : ℚ)
    (calls : List OverrideCall) :
    Always (OverrideHistory.step interval files) OverrideHistory.ChangesInForce
        { override := ListOverride.reload files start } calls ↔
      Meets (OverrideHistory.step interval files) (OverrideHistory.RecentSuffice interval files)
        { override := ListOverride.reload files start } calls := by
  refine always_iff_meets (OverrideHistory.Inv files) (fun _ hinv => hinv.answers)
    (fun _ _ hinv hcall => hinv.step hcall) (fun _ _ hinv => hinv.not_changesInForce) ?_ calls
  exact ⟨fun _ _ => rfl, fun _ hmem => nomatch hmem⟩

/-- A wallet is put on the denylist and checked a minute after the files were read. -/
def denyThenCheck : List OverrideCall :=
  [.mutate ⟨.deny, "GWASH", true⟩, .check "GWASH" 60 60]

/-- The check reads the files again and does not answer 100. -/
theorem denied_wallet_forgotten :
    ¬Always (OverrideHistory.step 60 fun _ => .missing) OverrideHistory.ChangesInForce
      { override := ListOverride.reload (fun _ => .missing) 0 } denyThenCheck := by
  intro h
  have hanswer := h.last (some 100, none) (by decide +kernel)
  cases hanswer

end LedgerLens.Detection
