import Mathlib.Data.List.MinMax
import Mathlib.Data.List.Nodup
import Mathlib.Logic.Function.Basic
import Mathlib.Logic.Relation

/-!
# Union-find

Classes of elements, kept as a forest: each node has a parent, a root is its own. Searching
for a root halves the path, and two roots are linked by size. The sizes grow along the parents,
which is what makes the search end; that is a field of the structure. The main result says that
linking the pairs of a list gives the equivalence that they generate.
-/

/-- A forest over the nodes, with a size for each. -/
structure UnionFind (α : Type*) where
  /-- The nodes, oldest first. -/
  nodes : List α
  /-- The parent of a node; a root is its own, and so is what is no node. -/
  parent : α → α
  /-- A root's size is the number of nodes below it. -/
  size : α → ℕ
  /-- No node occurs twice. -/
  nodup : nodes.Nodup
  /-- Parents are nodes. -/
  parent_mem : ∀ x ∈ nodes, parent x ∈ nodes
  /-- What is no node is its own parent. -/
  parent_of_not_mem : ∀ x, x ∉ nodes → parent x = x
  /-- Sizes are positive. -/
  size_pos : ∀ x ∈ nodes, 0 < size x
  /-- Sizes grow along the parents. -/
  size_lt : ∀ x, parent x ≠ x → size x < size (parent x)

namespace Relation

/-- A map that takes related elements to equivalent ones takes equivalent ones to such. -/
theorem eqvGen_map {α β : Type*} {R : α → α → Prop} {S : β → β → Prop} (f : α → β)
    (h : ∀ a b, R a b → EqvGen S (f a) (f b)) {x y : α} (hxy : EqvGen R x y) :
    EqvGen S (f x) (f y) := by
  induction hxy with
  | rel a b hab => exact h a b hab
  | refl a => exact EqvGen.refl _
  | symm a b _ ih => exact EqvGen.symm _ _ ih
  | trans a b c _ _ ihab ihbc => exact EqvGen.trans _ _ _ ihab ihbc

/-- A relation inside of an equivalence that another one generates generates no more. -/
theorem eqvGen_le {α : Type*} {R S : α → α → Prop} (h : ∀ a b, R a b → EqvGen S a b) {x y : α}
    (hxy : EqvGen R x y) : EqvGen S x y :=
  eqvGen_map id h hxy

end Relation

namespace UnionFind

variable {α : Type*}

/-- No nodes. -/
def empty : UnionFind α where
  nodes := []
  parent := id
  size := fun _ => 0
  nodup := List.nodup_nil
  parent_mem _ h := by cases h
  parent_of_not_mem _ _ := rfl
  size_pos _ h := by cases h
  size_lt _ h := absurd rfl h

/-- Only nodes have a parent other than themselves. -/
theorem mem_of_parent_ne (uf : UnionFind α) {x : α} (h : uf.parent x ≠ x) : x ∈ uf.nodes := by
  by_contra hmem
  exact h (uf.parent_of_not_mem x hmem)

/-- Sizes do not shrink along the parents. -/
theorem size_le_parent (uf : UnionFind α) (x : α) : uf.size x ≤ uf.size (uf.parent x) := by
  by_cases hroot : uf.parent x = x
  · exact Nat.le_of_eq (by rw [hroot])
  · have hlt := uf.size_lt x hroot
    omega

/-- The greatest size, which bounds every search. -/
def maxSize (uf : UnionFind α) : ℕ := (uf.nodes.map uf.size).foldr max 0

/-- No size exceeds the greatest. -/
theorem size_le_maxSize (uf : UnionFind α) {x : α} (hx : x ∈ uf.nodes) :
    uf.size x ≤ uf.maxSize := by
  exact List.le_max_of_le' 0 (List.mem_map_of_mem hx) (Nat.le_refl _)

variable [DecidableEq α]

/-- A new node, which is a root. -/
def add (uf : UnionFind α) (x : α) : UnionFind α :=
  if h : x ∈ uf.nodes then uf
  else
    { nodes := uf.nodes ++ [x]
      parent := uf.parent
      size := Function.update uf.size x 1
      nodup := List.nodup_append.mpr ⟨uf.nodup, by simp, by
        rintro a ha b hb rfl
        rw [List.mem_singleton.mp hb] at ha
        exact h ha⟩
      parent_mem := by
        intro y hy
        rcases List.mem_append.mp hy with hy | hy
        · exact List.mem_append_left _ (uf.parent_mem y hy)
        · rw [List.mem_singleton.mp hy, uf.parent_of_not_mem x h]
          simp
      parent_of_not_mem := fun y hy =>
        uf.parent_of_not_mem y fun hmem => hy (List.mem_append_left _ hmem)
      size_pos := by
        intro y hy
        by_cases hxy : y = x
        · rw [hxy, Function.update_self]
          exact Nat.one_pos
        · rw [Function.update_of_ne hxy]
          exact uf.size_pos y (by simpa [hxy] using hy)
      size_lt := by
        intro y hy
        have hmem := uf.mem_of_parent_ne hy
        have hne : y ≠ x := fun heq => h (heq ▸ hmem)
        have hparent : uf.parent y ≠ x := fun heq => h (heq ▸ uf.parent_mem y hmem)
        rw [Function.update_of_ne hne, Function.update_of_ne hparent]
        exact uf.size_lt y hy }

/-- One step of path halving: a node skips its parent. -/
def halve (uf : UnionFind α) (x : α) : UnionFind α where
  nodes := uf.nodes
  parent := Function.update uf.parent x (uf.parent (uf.parent x))
  size := uf.size
  nodup := uf.nodup
  parent_mem := by
    intro y hy
    by_cases hxy : y = x
    · subst hxy
      rw [Function.update_self]
      exact uf.parent_mem _ (uf.parent_mem y hy)
    · rw [Function.update_of_ne hxy]
      exact uf.parent_mem y hy
  parent_of_not_mem := by
    intro y hy
    by_cases hxy : y = x
    · subst hxy
      rw [Function.update_self, uf.parent_of_not_mem y hy, uf.parent_of_not_mem y hy]
    · rw [Function.update_of_ne hxy]
      exact uf.parent_of_not_mem y hy
  size_pos := uf.size_pos
  size_lt := by
    intro y hy
    by_cases hxy : y = x
    · subst hxy
      rw [Function.update_self] at hy ⊢
      by_cases hparent : uf.parent y = y
      · rw [hparent, hparent] at hy
        exact absurd rfl hy
      · have hfirst := uf.size_lt y hparent
        have hsecond := uf.size_le_parent (uf.parent y)
        omega
    · rw [Function.update_of_ne hxy] at hy ⊢
      exact uf.size_lt y hy

/-- The search for a root, with a bound on its steps. -/
def findFrom : ℕ → UnionFind α → α → UnionFind α × α
  | 0, uf, x => (uf, x)
  | fuel + 1, uf, x =>
    if uf.parent x = x then (uf, x)
    else findFrom fuel (uf.halve x) (uf.parent (uf.parent x))

/-- The search for a root: the forest with the path halved, and the root. -/
def find (uf : UnionFind α) (x : α) : UnionFind α × α := findFrom uf.maxSize uf x

/-- The root of a node. -/
def root (uf : UnionFind α) (x : α) : α := (uf.find x).2

/-- The roots of several nodes, one search after the other. -/
def findAll (uf : UnionFind α) : List α → UnionFind α × List (α × α)
  | [] => (uf, [])
  | x :: xs =>
    let found := uf.find x
    let rest := findAll found.1 xs
    (rest.1, (x, found.2) :: rest.2)

/-- A search from `x` along the parents ends at `r`. -/
inductive Root (uf : UnionFind α) : α → α → Prop where
  /-- At a root. -/
  | here {x : α} (h : uf.parent x = x) : Root uf x x
  /-- At the root of the parent. -/
  | up {x r : α} (h : uf.parent x ≠ x) (hr : Root uf (uf.parent x) r) : Root uf x r

section Roots

omit [DecidableEq α]

variable {uf : UnionFind α} {x y r r' : α}

/-- A search ends at a root. -/
theorem Root.parent (h : Root uf x r) : uf.parent r = r := by
  induction h with
  | here h => exact h
  | up _ _ ih => exact ih

/-- It has one end. -/
theorem Root.unique (h : Root uf x r) (h' : Root uf x r') : r = r' := by
  induction h with
  | here hroot =>
    cases h' with
    | here _ => rfl
    | up hup _ => exact absurd hroot hup
  | up hup _ ih =>
    cases h' with
    | here hroot => exact absurd hroot hup
    | up _ hr' => exact ih hr'

/-- The root of a node is a node. -/
theorem Root.mem (h : Root uf x r) (hx : x ∈ uf.nodes) : r ∈ uf.nodes := by
  induction h with
  | here _ => exact hx
  | up _ _ ih => exact ih (uf.parent_mem _ hx)

/-- Every search has an end. -/
theorem exists_root (uf : UnionFind α) (x : α) : ∃ r, uf.Root x r := by
  induction hgap : uf.maxSize - uf.size x using Nat.strongRecOn generalizing x with
  | ind gap ih =>
    by_cases hroot : uf.parent x = x
    · exact ⟨x, Root.here hroot⟩
    · have hlt := uf.size_lt x hroot
      have hle := uf.size_le_maxSize (uf.parent_mem x (uf.mem_of_parent_ne hroot))
      obtain ⟨r, hr⟩ := ih (uf.maxSize - uf.size (uf.parent x)) (by omega) (uf.parent x) rfl
      exact ⟨r, Root.up hroot hr⟩

/-- A node has the root of its parent. -/
theorem Root.of_parent (h : Root uf x r) : Root uf (uf.parent x) r := by
  cases h with
  | here hroot => rw [hroot]; exact Root.here hroot
  | up _ hr => exact hr

variable [DecidableEq α]

/-- Halving a path does not change any root. -/
theorem Root.halve (h : Root uf y r) (x : α) : Root (uf.halve x) y r := by
  induction h with
  | @here y hroot =>
    refine Root.here ?_
    by_cases hxy : y = x
    · subst hxy
      simp [UnionFind.halve, hroot]
    · simp [UnionFind.halve, Function.update_of_ne hxy, hroot]
  | @up y r hup _ ih =>
    have hlt := uf.size_lt y hup
    by_cases hxy : y = x
    · subst hxy
      have hparent : (uf.halve y).parent y = uf.parent (uf.parent y) := by
        simp [UnionFind.halve]
      have hsame : (uf.halve y).parent (uf.parent y) = uf.parent (uf.parent y) := by
        simp [UnionFind.halve, Function.update_of_ne hup]
      have hle := uf.size_le_parent (uf.parent y)
      have hne : uf.parent (uf.parent y) ≠ y := by
        intro heq
        rw [heq] at hle
        omega
      refine Root.up (by rwa [hparent]) ?_
      rw [hparent]
      cases ih with
      | here hroot =>
        rw [hsame] at hroot
        rw [hroot]
        exact Root.here (by rw [hsame, hroot])
      | up _ hr => rwa [hsame] at hr
    · have hparent : (uf.halve x).parent y = uf.parent y := by
        simp [UnionFind.halve, Function.update_of_ne hxy]
      refine Root.up (by rwa [hparent]) ?_
      rwa [hparent]

/-- A search with enough steps ends at the root, and changes nothing else. -/
theorem findFrom_spec (fuel : ℕ) (uf : UnionFind α) (x : α)
    (hfuel : uf.maxSize - uf.size x ≤ fuel) :
    Root uf x (findFrom fuel uf x).2 ∧ (findFrom fuel uf x).1.nodes = uf.nodes ∧
      (findFrom fuel uf x).1.size = uf.size ∧
      ∀ y r, Root uf y r → Root (findFrom fuel uf x).1 y r := by
  induction fuel generalizing uf x with
  | zero =>
    refine ⟨?_, rfl, rfl, fun _ _ h => h⟩
    refine Root.here ?_
    by_contra hup
    have hlt := uf.size_lt x hup
    have hle := uf.size_le_maxSize (uf.parent_mem x (uf.mem_of_parent_ne hup))
    omega
  | succ fuel ih =>
    unfold findFrom
    split_ifs with hroot
    · exact ⟨Root.here hroot, rfl, rfl, fun _ _ h => h⟩
    · have hlt := uf.size_lt x hroot
      have hle := uf.size_le_parent (uf.parent x)
      have hmax : (uf.halve x).maxSize = uf.maxSize := rfl
      have hsize : (uf.halve x).size = uf.size := rfl
      obtain ⟨hend, hnodes, hsizes, hkeeps⟩ := ih (uf.halve x) (uf.parent (uf.parent x)) (by
        rw [hmax, hsize]
        omega)
      refine ⟨?_, hnodes, hsizes, fun y r h => hkeeps y r (h.halve x)⟩
      obtain ⟨r, hr⟩ := uf.exists_root x
      rwa [hend.unique ((hr.of_parent.of_parent).halve x)]

/-- The search finds the root, and halving its path leaves nodes, sizes and roots as they
were. -/
theorem find_spec (uf : UnionFind α) (x : α) :
    Root uf x (uf.root x) ∧ (uf.find x).1.nodes = uf.nodes ∧ (uf.find x).1.size = uf.size ∧
      ∀ y r, Root uf y r → Root (uf.find x).1 y r :=
  findFrom_spec uf.maxSize uf x (Nat.sub_le _ _)

theorem root_eq_iff : uf.root x = r ↔ Root uf x r := by
  constructor
  · rintro rfl
    exact (uf.find_spec x).1
  · exact fun h => (uf.find_spec x).1.unique h

/-- A forest in which every search ends as in another one has the same roots. -/
theorem root_congr {uf' : UnionFind α} (h : ∀ y r, Root uf y r → Root uf' y r) (y : α) :
    uf'.root y = uf.root y :=
  root_eq_iff.mpr (h y _ (uf.find_spec y).1)

@[simp] theorem nodes_find : (uf.find x).1.nodes = uf.nodes := (uf.find_spec x).2.1

@[simp] theorem root_find : (uf.find x).1.root y = uf.root y :=
  root_congr (uf.find_spec x).2.2.2 y

@[simp] theorem parent_add : (uf.add x).parent = uf.parent := by
  unfold add
  split_ifs <;> rfl

/-- A new node is a root, and the others keep theirs. -/
@[simp] theorem root_add : (uf.add x).root y = uf.root y := by
  refine root_congr (fun y r h => ?_) y
  induction h with
  | here h => exact Root.here (by rwa [parent_add])
  | up h _ ih => exact Root.up (by rwa [parent_add]) (by rwa [parent_add])

@[simp] theorem mem_nodes_add : y ∈ (uf.add x).nodes ↔ y ∈ uf.nodes ∨ y = x := by
  unfold add
  split_ifs with h
  · constructor
    · exact Or.inl
    · rintro (hy | rfl)
      · exact hy
      · exact h
  · simp

/-- What is no node is its own root. -/
theorem root_of_not_mem (h : x ∉ uf.nodes) : uf.root x = x :=
  root_eq_iff.mpr (Root.here (uf.parent_of_not_mem x h))

@[simp] theorem root_empty : (empty : UnionFind α).root x = x :=
  root_of_not_mem (by simp [empty])

theorem root_mem (h : x ∈ uf.nodes) : uf.root x ∈ uf.nodes := (uf.find_spec x).1.mem h

theorem parent_root : uf.parent (uf.root x) = uf.root x := (uf.find_spec x).1.parent

/-- The root of a root is the root itself. -/
@[simp] theorem root_root : uf.root (uf.root x) = uf.root x :=
  root_eq_iff.mpr (Root.here parent_root)

/-- The searches find the roots, and leave nodes and roots as they were. -/
theorem findAll_spec (uf : UnionFind α) (xs : List α) :
    (uf.findAll xs).2 = xs.map (fun x => (x, uf.root x)) ∧ (uf.findAll xs).1.nodes = uf.nodes ∧
      ∀ y, (uf.findAll xs).1.root y = uf.root y := by
  induction xs generalizing uf with
  | nil => exact ⟨rfl, rfl, fun _ => rfl⟩
  | cons x xs ih =>
    obtain ⟨hroots, hnodes, hkeeps⟩ := ih (uf.find x).1
    refine ⟨?_, hnodes.trans nodes_find, fun y => (hkeeps y).trans root_find⟩
    simp only [findAll, hroots, root_find, List.map_cons]
    rfl

end Roots

/-- Two different roots. -/
structure RootPair (uf : UnionFind α) (top below : α) : Prop where
  /-- One is a node. -/
  top_mem : top ∈ uf.nodes
  /-- So is the other. -/
  below_mem : below ∈ uf.nodes
  /-- One is a root. -/
  top_root : uf.parent top = top
  /-- So is the other. -/
  below_root : uf.parent below = below
  /-- They differ. -/
  ne : top ≠ below

/-- A root becomes the parent of another one. -/
def link (uf : UnionFind α) (top below : α) (h : RootPair uf top below) : UnionFind α where
  nodes := uf.nodes
  parent := Function.update uf.parent below top
  size := Function.update uf.size top (uf.size top + uf.size below)
  nodup := uf.nodup
  parent_mem := by
    intro y hy
    by_cases hyb : y = below
    · rw [hyb, Function.update_self]
      exact h.top_mem
    · rw [Function.update_of_ne hyb]
      exact uf.parent_mem y hy
  parent_of_not_mem := by
    intro y hy
    have hyb : y ≠ below := fun heq => hy (heq ▸ h.below_mem)
    rw [Function.update_of_ne hyb]
    exact uf.parent_of_not_mem y hy
  size_pos := by
    intro y hy
    have hpos := uf.size_pos y hy
    by_cases hyt : y = top
    · rw [hyt, Function.update_self]
      rw [hyt] at hpos
      omega
    · rwa [Function.update_of_ne hyt]
  size_lt := by
    intro y hy
    have htop := uf.size_pos top h.top_mem
    by_cases hyb : y = below
    · rw [hyb, Function.update_self, Function.update_self, Function.update_of_ne h.ne.symm]
      omega
    · rw [Function.update_of_ne hyb] at hy ⊢
      have hlt := uf.size_lt y hy
      have hyt : y ≠ top := fun heq => hy (by rw [heq, h.top_root])
      rw [Function.update_of_ne hyt]
      by_cases hparent : uf.parent y = top
      · rw [hparent, Function.update_self]
        rw [hparent] at hlt
        omega
      · rwa [Function.update_of_ne hparent]

/-- Linking moves the nodes below one root to the other. -/
theorem root_link {uf : UnionFind α} {top below : α} (h : RootPair uf top below) (y : α) :
    (uf.link top below h).root y = if uf.root y = below then top else uf.root y := by
  rw [root_eq_iff]
  have htop : (uf.link top below h).parent top = top := by
    simp [link, Function.update_of_ne h.ne, h.top_root]
  have hbelow : (uf.link top below h).parent below = top := by simp [link]
  have hroot := (uf.find_spec y).1
  generalize uf.root y = r at hroot ⊢
  induction hroot with
  | @here y hy =>
    by_cases hyb : y = below
    · rw [if_pos hyb, hyb]
      exact Root.up (by rw [hbelow]; exact h.ne) (by rw [hbelow]; exact Root.here htop)
    · rw [if_neg hyb]
      exact Root.here (by simp [link, Function.update_of_ne hyb, hy])
  | @up y r hup _ ih =>
    have hyb : y ≠ below := fun heq => hup (by rw [heq, h.below_root])
    have hparent : (uf.link top below h).parent y = uf.parent y := by
      simp [link, Function.update_of_ne hyb]
    exact Root.up (by rwa [hparent]) (by rwa [hparent])

/-- The roots of two nodes, after both searches. -/
theorem rootPair_of_find (uf : UnionFind α) {a b : α} (ha : a ∈ uf.nodes) (hb : b ∈ uf.nodes)
    (hne : uf.root a ≠ uf.root b) :
    RootPair ((uf.find a).1.find b).1 (uf.find a).2 ((uf.find a).1.find b).2 := by
  have hsecond : ((uf.find a).1.find b).2 = uf.root b := root_find
  have hfirst : (uf.find a).2 = uf.root a := rfl
  have hkeeps (x : α) : ((uf.find a).1.find b).1.parent (uf.root x) = uf.root x := by
    have hsame : ((uf.find a).1.find b).1.root x = uf.root x := by simp
    rw [← hsame]
    exact parent_root
  rw [hfirst, hsecond]
  exact ⟨by simpa using root_mem ha, by simpa using root_mem hb, hkeeps a, hkeeps b, hne⟩

/-- Two nodes are put into one class: the smaller root goes below the larger one. -/
def union (uf : UnionFind α) (a b : α) : UnionFind α :=
  let joined := (uf.add a).add b
  let first := joined.find a
  let second := first.1.find b
  if h : first.2 = second.2 then second.1
  else
    have hpair : RootPair second.1 first.2 second.2 :=
      rootPair_of_find joined (by simp [joined]) (by simp [joined]) (by
        have hsecond : second.2 = joined.root b := root_find
        rw [← hsecond]
        exact h)
    if second.1.size first.2 < second.1.size second.2 then
      second.1.link second.2 first.2
        ⟨hpair.below_mem, hpair.top_mem, hpair.below_root, hpair.top_root, hpair.ne.symm⟩
    else second.1.link first.2 second.2 hpair

section Union

variable {uf : UnionFind α} {a b x y : α}

@[simp] theorem mem_nodes_union : x ∈ (uf.union a b).nodes ↔ x ∈ uf.nodes ∨ x = a ∨ x = b := by
  have hjoined : x ∈ ((uf.add a).add b).nodes ↔ x ∈ uf.nodes ∨ x = a ∨ x = b := by
    simp [or_assoc]
  unfold union
  dsimp only
  split_ifs <;> simp [link, or_assoc]

/-- How the roots change: not at all, or one of the two roots gives way to the other. -/
theorem root_union (uf : UnionFind α) (a b : α) :
    uf.root a = uf.root b ∧ (∀ y, (uf.union a b).root y = uf.root y) ∨
      (∀ y, (uf.union a b).root y = if uf.root y = uf.root b then uf.root a else uf.root y) ∨
      ∀ y, (uf.union a b).root y = if uf.root y = uf.root a then uf.root b else uf.root y := by
  have hfirst : (((uf.add a).add b).find a).2 = uf.root a := by
    have h : ((uf.add a).add b).root a = uf.root a := by simp
    exact h
  have hsecond : ((((uf.add a).add b).find a).1.find b).2 = uf.root b := by
    have h : (((uf.add a).add b).find a).1.root b = uf.root b := by simp
    exact h
  unfold union
  dsimp only
  split_ifs with hsame hsize
  · left
    rw [hfirst, hsecond] at hsame
    exact ⟨hsame, fun y => by simp⟩
  · right
    right
    intro y
    rw [root_link]
    simp [hfirst, hsecond]
  · right
    left
    intro y
    rw [root_link]
    simp [hfirst, hsecond]

/-- Two elements are in one class after a union if they were before, or if one was in each of
the two classes. -/
theorem root_union_eq_iff : (uf.union a b).root x = (uf.union a b).root y ↔
    uf.root x = uf.root y ∨ uf.root x = uf.root a ∧ uf.root b = uf.root y ∨
      uf.root x = uf.root b ∧ uf.root a = uf.root y := by
  rcases root_union uf a b with ⟨hab, hroot⟩ | hroot | hroot <;> rw [hroot, hroot]
  · rw [hab]
    constructor
    · exact Or.inl
    · rintro (h | ⟨hx, hy⟩ | ⟨hx, hy⟩)
      · exact h
      · exact hx.trans hy
      · exact hx.trans hy
  · split_ifs <;> grind
  · split_ifs <;> grind

end Union

section Equivalence

open Relation

variable {β : Type*}

/-- What a change of the forest joins: two elements are in one class afterwards if the classes
before and the joined pairs generate that. -/
def Joins (f : UnionFind α → β → UnionFind α) (joined : β → α → α → Prop) : Prop :=
  ∀ uf b x y, (f uf b).root x = (f uf b).root y ↔
    EqvGen (fun c d => uf.root c = uf.root d ∨ joined b c d) x y

/-- Elements related by pairs of one class are of one class. -/
theorem root_eq_of_eqvGen {uf : UnionFind α} {R : α → α → Prop}
    (h : ∀ c d, R c d → uf.root c = uf.root d) {x y : α} (hxy : EqvGen R x y) :
    uf.root x = uf.root y := by
  induction hxy with
  | rel c d hcd => exact h c d hcd
  | refl c => rfl
  | symm c d _ ih => exact ih.symm
  | trans c d e _ _ ihcd ihde => exact ihcd.trans ihde

/-- A union joins its two arguments. -/
theorem joins_union : Joins (fun (uf : UnionFind α) (p : α × α) => uf.union p.1 p.2)
    (fun p c d => c = p.1 ∧ d = p.2) := by
  intro uf p x y
  rw [root_union_eq_iff]
  have hjoin : EqvGen (fun c d => uf.root c = uf.root d ∨ c = p.1 ∧ d = p.2) p.1 p.2 :=
    EqvGen.rel _ _ (Or.inr ⟨rfl, rfl⟩)
  have hsame {c d : α} (h : uf.root c = uf.root d) :
      EqvGen (fun c d => uf.root c = uf.root d ∨ c = p.1 ∧ d = p.2) c d :=
    EqvGen.rel _ _ (Or.inl h)
  constructor
  · rintro (h | ⟨hx, hy⟩ | ⟨hx, hy⟩)
    · exact hsame h
    · exact EqvGen.trans _ _ _ (EqvGen.trans _ _ _ (hsame hx) hjoin) (hsame hy)
    · exact EqvGen.trans _ _ _ (EqvGen.trans _ _ _ (hsame hx) (EqvGen.symm _ _ hjoin)) (hsame hy)
  · intro h
    rw [← root_union_eq_iff]
    refine root_eq_of_eqvGen (fun c d hcd => ?_) h
    rw [root_union_eq_iff]
    rcases hcd with hcd | ⟨rfl, rfl⟩
    · exact Or.inl hcd
    · exact Or.inr (Or.inl ⟨rfl, rfl⟩)

/-- Changes one after the other join what each of them joins. -/
theorem Joins.foldl {f : UnionFind α → β → UnionFind α} {joined : β → α → α → Prop}
    (hf : Joins f joined) (bs : List β) (uf : UnionFind α) (x y : α) :
    (bs.foldl f uf).root x = (bs.foldl f uf).root y ↔
      EqvGen (fun c d => uf.root c = uf.root d ∨ ∃ b ∈ bs, joined b c d) x y := by
  induction bs generalizing uf with
  | nil =>
    constructor
    · exact fun h => EqvGen.rel _ _ (Or.inl h)
    · exact root_eq_of_eqvGen fun c d hcd => by simpa using hcd
  | cons b bs ih =>
    rw [List.foldl_cons, ih]
    constructor
    · refine eqvGen_le fun c d hcd => ?_
      rcases hcd with hcd | ⟨b', hb', hcd⟩
      · refine eqvGen_le (fun c' d' h => EqvGen.rel _ _ ?_) ((hf uf b c d).mp hcd)
        exact h.imp id fun hjoined => ⟨b, List.mem_cons_self, hjoined⟩
      · exact EqvGen.rel _ _ (Or.inr ⟨b', List.mem_cons_of_mem _ hb', hcd⟩)
    · refine eqvGen_le fun c d hcd => EqvGen.rel _ _ ?_
      rcases hcd with hcd | ⟨b', hb', hcd⟩
      · exact Or.inl ((hf uf b c d).mpr (EqvGen.rel _ _ (Or.inl hcd)))
      · rcases List.mem_cons.mp hb' with rfl | hb'
        · exact Or.inl ((hf uf b' c d).mpr (EqvGen.rel _ _ (Or.inr hcd)))
        · exact Or.inr ⟨b', hb', hcd⟩

/-- All elements of a list are put into one class, each together with the first. -/
def unionAll (uf : UnionFind α) : List α → UnionFind α
  | [] => uf
  | x :: xs => xs.foldl (fun uf y => uf.union x y) (uf.add x)

theorem mem_nodes_unionAll {uf : UnionFind α} {xs : List α} {x : α} :
    x ∈ (uf.unionAll xs).nodes ↔ x ∈ uf.nodes ∨ x ∈ xs := by
  have hfold (a : α) (ys : List α) (uf : UnionFind α) (ha : a ∈ uf.nodes) :
      x ∈ (ys.foldl (fun uf y => uf.union a y) uf).nodes ↔ x ∈ uf.nodes ∨ x ∈ ys := by
    induction ys generalizing uf with
    | nil => simp
    | cons y ys ih =>
      rw [List.foldl_cons, ih _ (by simp), mem_nodes_union, List.mem_cons]
      constructor
      · rintro ((h | rfl | h) | h)
        · exact Or.inl h
        · exact Or.inl ha
        · exact Or.inr (Or.inl h)
        · exact Or.inr (Or.inr h)
      · rintro (h | h | h)
        · exact Or.inl (Or.inl h)
        · exact Or.inl (Or.inr (Or.inr h))
        · exact Or.inr h
  cases xs with
  | nil => simp [unionAll]
  | cons a ys => simp [unionAll, hfold, or_assoc]

theorem mem_nodes_foldl_unionAll {f : β → List α} {bs : List β} {uf : UnionFind α} {x : α} :
    x ∈ (bs.foldl (fun uf b => uf.unionAll (f b)) uf).nodes ↔
      x ∈ uf.nodes ∨ ∃ b ∈ bs, x ∈ f b := by
  induction bs generalizing uf with
  | nil => simp
  | cons b bs ih => rw [List.foldl_cons, ih, mem_nodes_unionAll, List.exists_mem_cons_iff, or_assoc]

/-- That joins the first element to all others. -/
theorem joins_unionAll : Joins (fun (uf : UnionFind α) (xs : List α) => uf.unionAll xs)
    (fun xs c d => xs.head? = some c ∧ d ∈ xs.tail) := by
  intro uf xs x y
  cases xs with
  | nil =>
    constructor
    · exact fun h => EqvGen.rel _ _ (Or.inl h)
    · exact root_eq_of_eqvGen fun c d hcd => by simpa [unionAll] using hcd
  | cons a ys =>
    have hpairs : Joins (fun (uf : UnionFind α) (b : α) => uf.union a b)
        (fun b c d => c = a ∧ d = b) := fun uf b => joins_union uf (a, b)
    dsimp only [unionAll]
    rw [hpairs.foldl]
    constructor
    · refine eqvGen_le fun c d hcd => EqvGen.rel _ _ ?_
      rcases hcd with hcd | ⟨b, hb, rfl, rfl⟩
      · exact Or.inl (by simpa using hcd)
      · exact Or.inr ⟨rfl, hb⟩
    · refine eqvGen_le fun c d hcd => EqvGen.rel _ _ ?_
      rcases hcd with hcd | ⟨hc, hd⟩
      · exact Or.inl (by simpa using hcd)
      · exact Or.inr ⟨d, hd, (Option.some.inj hc).symm, rfl⟩

/-- Lists of elements, each put into one class, generate the classes. -/
theorem root_foldl_unionAll_eq_iff {f : β → List α} {bs : List β} {x y : α} :
    (bs.foldl (fun uf b => uf.unionAll (f b)) (empty : UnionFind α)).root x =
        (bs.foldl (fun uf b => uf.unionAll (f b)) empty).root y ↔
      EqvGen (fun c d => ∃ b ∈ bs, c ∈ f b ∧ d ∈ f b) x y := by
  have hjoins : Joins (fun (uf : UnionFind α) (b : β) => uf.unionAll (f b))
      (fun b c d => (f b).head? = some c ∧ d ∈ (f b).tail) := fun uf b => joins_unionAll uf (f b)
  rw [hjoins.foldl]
  constructor
  · refine eqvGen_le fun c d hcd => ?_
    rcases hcd with hcd | ⟨b, hb, hc, hd⟩
    · rw [root_empty, root_empty] at hcd
      rw [hcd]
      exact EqvGen.refl d
    · exact EqvGen.rel _ _ ⟨b, hb, List.mem_of_mem_head? hc, List.mem_of_mem_tail hd⟩
  · refine eqvGen_le fun c d hcd => ?_
    obtain ⟨b, hb, hc, hd⟩ := hcd
    obtain ⟨first, rest, hlist⟩ := List.exists_cons_of_ne_nil (List.ne_nil_of_mem hc)
    have hfirst {e : α} (he : e ∈ f b) : EqvGen (fun c d =>
        (empty : UnionFind α).root c = empty.root d ∨
          ∃ b ∈ bs, (f b).head? = some c ∧ d ∈ (f b).tail) first e := by
      rw [hlist] at he
      rcases List.mem_cons.mp he with rfl | he
      · exact EqvGen.refl e
      · exact EqvGen.rel _ _ (Or.inr ⟨b, hb, by rw [hlist]; rfl, by rw [hlist]; exact he⟩)
    exact EqvGen.trans _ _ _ (EqvGen.symm _ _ (hfirst hc)) (hfirst hd)

/-- The forest of a list of pairs. -/
def unions (pairs : List (α × α)) : UnionFind α :=
  pairs.foldl (fun uf p => uf.union p.1 p.2) empty

theorem mem_nodes_foldl_union {pairs : List (α × α)} {uf : UnionFind α} {x : α} :
    x ∈ (pairs.foldl (fun uf p => uf.union p.1 p.2) uf).nodes ↔
      x ∈ uf.nodes ∨ ∃ p ∈ pairs, x = p.1 ∨ x = p.2 := by
  induction pairs generalizing uf with
  | nil => simp
  | cons p pairs ih =>
    rw [List.foldl_cons, ih, mem_nodes_union, List.exists_mem_cons_iff, or_assoc]

/-- Its nodes are the elements of the pairs. -/
theorem mem_nodes_unions {pairs : List (α × α)} {x : α} :
    x ∈ (unions pairs).nodes ↔ ∃ p ∈ pairs, x = p.1 ∨ x = p.2 := by
  unfold unions
  rw [mem_nodes_foldl_union]
  simp [empty]

/-- Its classes are those of the equivalence that the pairs generate. -/
theorem root_unions_eq_iff {pairs : List (α × α)} {x y : α} :
    (unions pairs).root x = (unions pairs).root y ↔
      EqvGen (fun c d => (c, d) ∈ pairs) x y := by
  unfold unions
  rw [joins_union.foldl]
  constructor
  · refine eqvGen_le fun c d hcd => ?_
    rcases hcd with hcd | ⟨p, hp, rfl, rfl⟩
    · rw [root_empty, root_empty] at hcd
      rw [hcd]
      exact EqvGen.refl d
    · exact EqvGen.rel _ _ hp
  · exact eqvGen_le fun c d hcd => EqvGen.rel _ _ (Or.inr ⟨(c, d), hcd, rfl, rfl⟩)

end Equivalence

end UnionFind
