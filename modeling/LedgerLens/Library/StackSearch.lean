import Mathlib.Data.List.Nodup
import Mathlib.Data.Nat.Init
import Mathlib.Logic.Relation

/-!
# Searching a tree with a stack

A loop takes a node from a stack, visits it and puts its children on top of the rest, until the
stack is empty or the search is to stop. If children are always lower than their parents, then the
loop comes to an end and has visited the nodes of the tree from the left to the right, each before
its children, or an initial segment of them.
-/

namespace StackSearch

variable {ν σ : Type*}

/-- The loop, with a number of turns after which it is given up. Whether to stop is asked as long
as there is a node left. -/
def search (stop : σ → Bool) (halt : σ → σ) (step : ν → σ → σ × List ν) :
    ℕ → List ν → σ → Option σ
  | 0, _, _ => none
  | _ + 1, [], s => some s
  | fuel + 1, n :: stack, s =>
    if stop s then some (halt s)
    else search stop halt step fuel ((step n s).2 ++ stack) (step n s).1

section Visits

variable (stop : σ → Bool) (halt : σ → σ) (visit : ν → σ → σ)

/-- Visit some nodes one after the other, unless the search is to stop before. -/
def visitAll : List ν → σ → σ
  | [], s => s
  | n :: rest, s => if stop s then halt s else visitAll rest (visit n s)

/-- Either all nodes are visited, or the search has stopped. -/
theorem visitAll_eq (nodes : List ν) (s : σ) :
    visitAll stop halt visit nodes s = nodes.foldl (fun s n => visit n s) s ∨
      ∃ s', visitAll stop halt visit nodes s = halt s' := by
  induction nodes generalizing s with
  | nil => exact Or.inl rfl
  | cons n rest ih =>
    unfold visitAll
    split_ifs
    · exact Or.inr ⟨s, rfl⟩
    · exact ih (visit n s)

end Visits

/-- The nodes below a node up to a height, each before its children. -/
def preorder (children : ν → List ν) : ℕ → ν → List ν
  | 0, n => [n]
  | height + 1, n => n :: (children n).flatMap (preorder children height)

section Tree

variable {children : ν → List ν} {height : ν → ℕ}
  (hheight : ∀ n, ∀ c ∈ children n, height c < height n)

include hheight

/-- A height that is large enough does not matter. -/
theorem preorder_eq_of_le {bound : ℕ} {n : ν} (hbound : height n ≤ bound) :
    preorder children bound n = preorder children (height n) n := by
  induction bound using Nat.strong_induction_on generalizing n with
  | _ bound ih =>
    cases hn : height n with
    | zero =>
      have hleaf : children n = [] := by
        refine List.eq_nil_iff_forall_not_mem.mpr fun c hc => ?_
        have hlower := hheight n c hc
        omega
      cases bound with
      | zero => rfl
      | succ bound =>
        unfold preorder
        rw [hleaf, List.flatMap_nil]
    | succ h =>
      cases bound with
      | zero => omega
      | succ bound =>
        unfold preorder
        congr 1
        refine List.flatMap_congr fun c hc => ?_
        have hlower := hheight n c hc
        rw [ih bound (Nat.lt_succ_self bound) (by omega), ih h (by omega) (by omega)]

/-- The nodes below a node are the node itself and the nodes below its children. -/
theorem preorder_eq_cons (n : ν) :
    preorder children (height n) n =
      n :: (children n).flatMap fun c => preorder children (height c) c := by
  rw [← preorder_eq_of_le hheight (Nat.le_succ (height n))]
  show n :: (children n).flatMap (preorder children (height n)) = _
  congr 1
  exact List.flatMap_congr fun c hc => preorder_eq_of_le hheight (Nat.le_of_lt (hheight n c hc))

/-- With enough turns, the loop visits the nodes below those on the stack in their order. What
the stack holds may be images of the nodes. -/
theorem search_eq {ν' : Type*} (f : ν → ν') (stop : σ → Bool) (halt : σ → σ)
    {step : ν' → σ → σ × List ν'} {visit : ν → σ → σ}
    (hstep : ∀ n s, step (f n) s = (visit n s, (children n).map f)) (fuel : ℕ) (stack : List ν)
    (s : σ) (hfuel : (stack.flatMap fun n => preorder children (height n) n).length < fuel) :
    search stop halt step fuel (stack.map f) s =
      some (visitAll stop halt visit
        (stack.flatMap fun n => preorder children (height n) n) s) := by
  induction fuel generalizing stack s with
  | zero => omega
  | succ fuel ih =>
    cases stack with
    | nil => rfl
    | cons n stack =>
      have hnodes : ((n :: stack).flatMap fun n => preorder children (height n) n) =
          n :: (children n ++ stack).flatMap fun n => preorder children (height n) n := by
        rw [List.flatMap_cons, preorder_eq_cons hheight, List.cons_append, List.flatMap_append]
      rw [hnodes] at hfuel ⊢
      rw [List.length_cons] at hfuel
      rw [List.map_cons]
      unfold search visitAll
      rw [hstep, ← List.map_append]
      split_ifs
      · rfl
      · exact ih _ _ (by omega)

/-- What is below a node is reached from it from parent to child. -/
theorem mem_preorder_iff {n m : ν} :
    m ∈ preorder children (height n) n ↔ Relation.ReflTransGen (fun n c => c ∈ children n) n m := by
  induction hn : height n using Nat.strong_induction_on generalizing n with
  | _ h ih =>
    rw [← hn, preorder_eq_cons hheight, List.mem_cons, List.mem_flatMap,
      Relation.ReflTransGen.cases_head_iff]
    refine or_congr eq_comm (exists_congr fun c => and_congr_right fun hc => ?_)
    exact ih _ (hn ▸ hheight n c hc) rfl

theorem height_le_of_reflTransGen {n m : ν}
    (h : Relation.ReflTransGen (fun n c => c ∈ children n) n m) : height m ≤ height n := by
  induction h with
  | refl => exact Nat.le_refl _
  | tail _ hc ih => exact Nat.le_trans (Nat.le_of_lt (hheight _ _ hc)) ih

/-- No node is visited twice, if none is twice a child of a node and none has two parents. -/
theorem nodup_preorder (hchildren : ∀ n, (children n).Nodup)
    (hparent : ∀ n n' c, c ∈ children n → c ∈ children n' → n = n') (n : ν) :
    (preorder children (height n) n).Nodup := by
  induction hn : height n using Nat.strong_induction_on generalizing n with
  | _ h ih =>
    rw [← hn, preorder_eq_cons hheight, List.nodup_cons]
    refine ⟨fun hmem => ?_, List.nodup_flatMap.mpr ⟨fun c hc => ?_, ?_⟩⟩
    · obtain ⟨c, hc, hbelow⟩ := List.mem_flatMap.mp hmem
      have hlower := hheight n c hc
      have hback := height_le_of_reflTransGen hheight ((mem_preorder_iff hheight).mp hbelow)
      omega
    · exact ih _ (hn ▸ hheight n c hc) c rfl
    · refine (hchildren n).imp_of_mem fun {c c'} hc hc' hne m hm hm' => hne ?_
      -- One of two children would be below the other one, whose only parent is above.
      have hbelow : ∀ {c c'}, c ∈ children n → c' ∈ children n →
          Relation.ReflTransGen (fun n c => c ∈ children n) c c' → c = c' := by
        intro c c' hc hc' hdown
        obtain heq | ⟨b, hb, hparent'⟩ := hdown.cases_tail
        · exact heq.symm
        · obtain rfl := hparent _ _ _ hc' hparent'
          have hlower := hheight _ c hc
          have hback := height_le_of_reflTransGen hheight hb
          omega
      have hup : Relator.RightUnique (Function.swap fun (n c : ν) => c ∈ children n) :=
        fun c n n' h h' => hparent n n' c h h'
      have hm₁ := Relation.reflTransGen_swap.mpr ((mem_preorder_iff hheight).mp hm)
      have hm₂ := Relation.reflTransGen_swap.mpr ((mem_preorder_iff hheight).mp hm')
      obtain h₁ | h₂ := Relation.ReflTransGen.total_of_right_unique hup hm₁ hm₂
      · exact (hbelow hc' hc (Relation.reflTransGen_swap.mp h₁)).symm
      · exact hbelow hc hc' (Relation.reflTransGen_swap.mp h₂)

end Tree

end StackSearch
