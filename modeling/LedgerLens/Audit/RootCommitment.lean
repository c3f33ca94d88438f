import LedgerLens.Audit.MerkleChain

/-!
# What a root commits to

A root of the audit chain is the top of a binary tree of hashes over the leaves. Two lists
of equally many leaves with one root are the same list, as long as no two different texts
that are hashed for them have the same hash.
-/

namespace LedgerLens.Audit

variable {sha256 : String → String}

/-- An even number of nodes: the last of an odd number is duplicated. -/
def evened (nodes : List String) : List String :=
  if nodes.length % 2 = 1 then nodes ++ nodes.getLast?.toList else nodes

/-- The texts that are hashed for the nodes above an even number of nodes. -/
def pairTexts : List String → List String
  | left :: right :: rest => (left ++ right) :: pairTexts rest
  | _ => []

variable (sha256) in
/-- The texts that the loop in `_merkle_root` hashes. -/
def treeTexts : ℕ → List String → List String
  | 0, _ => []
  | turns + 1, nodes =>
    if 1 < nodes.length then
      pairTexts (evened nodes) ++ treeTexts turns (nextLevel sha256 nodes)
    else []

variable (sha256) in
/-- No two different texts of two lists have the same hash. -/
def NoClash (texts texts' : List String) : Prop :=
  ∀ x ∈ texts, ∀ y ∈ texts', sha256 x = sha256 y → x = y

theorem nextLevel_eq (nodes : List String) :
    nextLevel sha256 nodes = (pairTexts (evened nodes)).map sha256 := by
  have habove : ∀ nodes, nodesAbove sha256 nodes = (pairTexts nodes).map sha256 := by
    intro nodes
    induction nodes using pairTexts.induct with
    | case1 left right rest ih => simp only [nodesAbove, pairTexts, List.map_cons, ih, nodeHash]
    | case2 nodes h => cases nodes with
      | nil => rfl
      | cons node rest => cases rest with
        | nil => rfl
        | cons next rest => exact absurd rfl (h node next rest)
  exact habove _

/-- Texts whose hashes agree in order agree, when there is no collision among them. -/
theorem map_inj_of_noClash {texts texts' : List String} (h : NoClash sha256 texts texts')
    (heq : texts.map sha256 = texts'.map sha256) : texts = texts' := by
  induction texts generalizing texts' with
  | nil => simpa [eq_comm] using heq
  | cons x xs ih =>
    cases texts' with
    | nil => simp at heq
    | cons y ys =>
      rw [List.map_cons, List.map_cons, List.cons.injEq] at heq
      have hhead := h x List.mem_cons_self y List.mem_cons_self heq.1
      have htail : xs = ys := by
        refine ih (fun a ha b hb => ?_) heq.2
        exact h a (List.mem_cons_of_mem x ha) b (List.mem_cons_of_mem y hb)
      rw [hhead, htail]

/-- Nodes of one width can be read back from the texts of their pairs. -/
theorem pairTexts_inj {width : ℕ} {nodes nodes' : List String}
    (hlength : nodes.length = nodes'.length) (heven : nodes.length % 2 = 0)
    (hwidth : ∀ x ∈ nodes, x.length = width) (hwidth' : ∀ x ∈ nodes', x.length = width)
    (h : pairTexts nodes = pairTexts nodes') : nodes = nodes' := by
  induction nodes using pairTexts.induct generalizing nodes' with
  | case1 left right rest ih =>
    obtain ⟨left', right', rest', rfl⟩ : ∃ l r rs, nodes' = l :: r :: rs := by
      match nodes', hlength with
      | l :: r :: rs, _ => exact ⟨l, r, rs, rfl⟩
    simp only [pairTexts, List.cons.injEq] at h
    simp only [List.length_cons] at hlength heven
    have hleft : left.length = left'.length := by
      rw [hwidth left (by simp), hwidth' left' (by simp)]
    have hpair : left = left' ∧ right = right' := by
      have hlists := congrArg String.toList h.1
      rw [String.toList_append, String.toList_append] at hlists
      have hboth := List.append_inj hlists
        (by rw [String.length_toList, String.length_toList, hleft])
      exact ⟨String.toList_inj.mp hboth.1, String.toList_inj.mp hboth.2⟩
    have hrest : rest = rest' := by
      refine ih (by omega) (by omega) (fun x hx => ?_) (fun x hx => ?_) h.2
      · exact hwidth x (by simp [hx])
      · exact hwidth' x (by simp [hx])
    rw [hpair.1, hpair.2, hrest]
  | case2 nodes hshort =>
    have hnil : nodes = [] := by
      match nodes with
      | [] => rfl
      | [_] => simp at heven
      | l :: r :: rs => exact absurd rfl (hshort l r rs)
    rw [hnil] at hlength ⊢
    exact (List.eq_nil_of_length_eq_zero hlength.symm).symm

theorem length_evened (nodes : List String) :
    (evened nodes).length = 2 * ((nodes.length + 1) / 2) := by
  unfold evened
  split_ifs with hodd
  · cases nodes with
    | nil => simp at hodd
    | cons node rest =>
      rw [List.getLast?_eq_some_getLast (List.cons_ne_nil _ _)]
      simp only [List.length_append, Option.toList_some, List.length_singleton]
      omega
  · omega

theorem mem_evened {nodes : List String} {x : String} : x ∈ evened nodes ↔ x ∈ nodes := by
  unfold evened
  split_ifs
  · rw [List.mem_append, Option.mem_toList]
    exact ⟨fun h => h.elim id List.mem_of_getLast?, Or.inl⟩
  · rfl

theorem evened_inj {nodes nodes' : List String} (hlength : nodes.length = nodes'.length)
    (h : evened nodes = evened nodes') : nodes = nodes' := by
  have htake : ∀ nodes : List String, (evened nodes).take nodes.length = nodes := by
    intro nodes
    unfold evened
    split_ifs
    · rw [List.take_left]
    · rw [List.take_length]
  rw [← htake nodes, ← htake nodes', h, hlength]

/-- Two trees over equally many nodes of one width that end at the same nodes have the same
nodes below, when there is no collision among the texts that they hash. -/
theorem climb_inj {width : ℕ} (hsha : ∀ text, (sha256 text).length = width) (turns : ℕ)
    {nodes nodes' : List String} (hlength : nodes.length = nodes'.length)
    (hwidth : ∀ x ∈ nodes, x.length = width) (hwidth' : ∀ x ∈ nodes', x.length = width)
    (hclash : NoClash sha256 (treeTexts sha256 turns nodes) (treeTexts sha256 turns nodes'))
    (h : climb sha256 turns nodes = climb sha256 turns nodes') : nodes = nodes' := by
  induction turns generalizing nodes nodes' with
  | zero => exact h
  | succ turns ih =>
    by_cases hmore : 1 < nodes.length
    · have hmore' : 1 < nodes'.length := by omega
      simp only [climb, treeTexts, hmore, hmore', if_true] at h hclash
      have hnext : nextLevel sha256 nodes = nextLevel sha256 nodes' := by
        have hmem : ∀ nodes, ∀ x ∈ nextLevel sha256 nodes, x.length = width := by
          intro nodes x hx
          rw [nextLevel_eq, List.mem_map] at hx
          obtain ⟨text, _, rfl⟩ := hx
          exact hsha text
        refine ih ?_ (hmem _) (hmem _) (fun x hx y hy => ?_) h
        · rw [length_nextLevel, length_nextLevel, hlength]
        · exact hclash x (List.mem_append_right _ hx) y (List.mem_append_right _ hy)
      rw [nextLevel_eq, nextLevel_eq] at hnext
      have htexts : pairTexts (evened nodes) = pairTexts (evened nodes') :=
        map_inj_of_noClash (fun x hx y hy =>
          hclash x (List.mem_append_left _ hx) y (List.mem_append_left _ hy)) hnext
      have hevened : evened nodes = evened nodes' := by
        refine pairTexts_inj ?_ ?_ (fun x hx => hwidth x (mem_evened.mp hx))
          (fun x hx => hwidth' x (mem_evened.mp hx)) htexts
        · rw [length_evened, length_evened, hlength]
        · rw [length_evened]
          omega
      exact evened_inj hlength hevened
    · have hmore' : ¬1 < nodes'.length := by omega
      simpa only [climb, hmore, hmore', if_false] using h

/-- A root determines its leaves, when their number is known and there is no collision among
the texts that are hashed. -/
theorem merkleRoot_inj {width : ℕ} (hsha : ∀ text, (sha256 text).length = width)
    {leaves leaves' : List String} (hlength : leaves.length = leaves'.length)
    (hwidth : ∀ x ∈ leaves, x.length = width) (hwidth' : ∀ x ∈ leaves', x.length = width)
    (hclash : NoClash sha256 (treeTexts sha256 leaves.length leaves)
      (treeTexts sha256 leaves'.length leaves'))
    (h : merkleRoot sha256 leaves = merkleRoot sha256 leaves') : leaves = leaves' := by
  by_cases hnil : leaves = []
  · rw [hnil] at hlength ⊢
    exact (List.eq_nil_of_length_eq_zero hlength.symm).symm
  · have hnil' : leaves' ≠ [] := by
      intro hempty
      rw [hempty] at hlength
      exact hnil (List.eq_nil_of_length_eq_zero hlength)
    have hroot : ∀ leaves, leaves ≠ [] →
        climb sha256 leaves.length leaves = [merkleRoot sha256 leaves] := by
      intro leaves hne
      obtain ⟨node, hnode⟩ := List.length_eq_one_iff.mp
        (length_climb sha256 leaves.length leaves hne le_rfl)
      cases leaves with
      | nil => exact absurd rfl hne
      | cons leaf rest => simp only [merkleRoot, hnode, List.headD_cons]
    refine climb_inj hsha leaves.length hlength hwidth hwidth' ?_ ?_
    · rw [← hlength] at hclash
      exact hclash
    · rw [hroot leaves hnil, hlength, hroot leaves' hnil', h]

end LedgerLens.Audit
