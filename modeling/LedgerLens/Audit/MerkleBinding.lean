import LedgerLens.Audit.RootCommitment
import LedgerLens.Library.HashTree
import LedgerLens.Library.Json

/-!
# What a root says about the number of leaves

The leaves of `_merkle_root` are hashes of a content with its index. A root determines the
contents, also how many there are: the last node of an odd level is duplicated, but the same
content in another place would have another index.
-/

namespace LedgerLens.Audit

/-- A tree over contents with their indices. -/
abbrev ContentTree := HashTree (ℕ × String)

/-- The text of a leaf. -/
def leafText (leaf : ℕ × String) : String := toString leaf.1 ++ ":" ++ leaf.2

section Trees

variable {sha256 : String → String}

/-- The leaf hashes of some contents. -/
def leafHashes (sha256 : String → String) (contentHashes : List String) : List String :=
  contentHashes.mapIdx (leafHash sha256)

/-- The texts that are hashed for the root of some contents. -/
def hashedTexts (sha256 : String → String) (contentHashes : List String) : List String :=
  match contentHashes with
  | [] => ["empty"]
  | _ => (contentHashes.mapIdx fun i c => leafText (i, c)) ++
      treeTexts sha256 contentHashes.length (leafHashes sha256 contentHashes)

/-- The leaves of some contents. -/
def contentLeaves (contentHashes : List String) : List ContentTree :=
  contentHashes.mapIdx fun i c => .leaf (i, c)

theorem map_hash_contentLeaves (sha256 : String → String) (contentHashes : List String) :
    (contentLeaves contentHashes).map (HashTree.hash sha256 leafText) =
      leafHashes sha256 contentHashes := by
  unfold contentLeaves leafHashes
  refine List.ext_getElem? fun i => ?_
  rw [List.getElem?_map, List.getElem?_mapIdx, List.getElem?_mapIdx, Option.map_map]
  rfl

/-- The leaves have the contents, each with its index. -/
theorem occurs_contentLeaves {contentHashes : List String} {i : ℕ} {c : String} :
    HashTree.Occurs (i, c) (contentLeaves contentHashes) ↔ contentHashes[i]? = some c := by
  unfold HashTree.Occurs contentLeaves
  constructor
  · rintro ⟨t, ht, hvalue⟩
    obtain ⟨j, hj, rfl⟩ := List.mem_mapIdx.mp ht
    obtain ⟨rfl, rfl⟩ := Prod.mk.inj (List.mem_singleton.mp hvalue)
    exact List.getElem?_eq_getElem hj
  · intro h
    obtain ⟨hi, rfl⟩ := List.getElem?_eq_some_iff.mp h
    exact ⟨_, List.mem_mapIdx.mpr ⟨i, hi, rfl⟩, List.mem_singleton.mpr rfl⟩

theorem evened_map_hash (trees : List ContentTree) :
    evened (trees.map (HashTree.hash sha256 leafText)) =
      (if trees.length % 2 = 1 then trees ++ trees.getLast?.toList else trees).map
        (HashTree.hash sha256 leafText) := by
  unfold evened
  rw [List.length_map]
  split_ifs
  · rw [List.map_append, List.getLast?_map]
    cases trees.getLast? <;> rfl
  · rfl

theorem pairTexts_map_hash (trees : List ContentTree) :
    (pairTexts (trees.map (HashTree.hash sha256 leafText))).map sha256 =
      (HashTree.pairs trees).map (HashTree.hash sha256 leafText) := by
  induction trees using HashTree.pairs.induct with
  | case1 left right rest ih =>
    simp only [List.map_cons, pairTexts, HashTree.pairs, HashTree.hash, ih]
  | case2 trees hshort =>
    cases trees with
    | nil => rfl
    | cons left rest =>
      cases rest with
      | nil => rfl
      | cons right rest => exact absurd rfl (hshort left right rest)

/-- The loop in `_merkle_root` climbs from the hashes of trees to those of the trees above. -/
theorem climb_map_hash (sha256 : String → String) (turns : ℕ) (trees : List ContentTree) :
    climb sha256 turns (trees.map (HashTree.hash sha256 leafText)) =
      (HashTree.climb turns trees).map (HashTree.hash sha256 leafText) := by
  induction turns generalizing trees with
  | zero => rfl
  | succ turns ih =>
    unfold climb HashTree.climb
    rw [List.length_map]
    split_ifs
    · rw [nextLevel_eq, evened_map_hash, pairTexts_map_hash, ← ih]
      rfl
    · rfl

/-- The texts of nodes are those of what they are above and those that are hashed for them. -/
theorem texts_of_mem_pairs {trees : List ContentTree} {t : ContentTree}
    (ht : t ∈ HashTree.pairs trees) {x : String} (hx : x ∈ t.texts sha256 leafText) :
    x ∈ pairTexts (trees.map (HashTree.hash sha256 leafText)) ∨
      ∃ t' ∈ trees, x ∈ t'.texts sha256 leafText := by
  induction trees using HashTree.pairs.induct with
  | case1 left right rest ih =>
    simp only [HashTree.pairs, List.mem_cons] at ht
    simp only [List.map_cons, pairTexts, List.mem_cons]
    obtain rfl | ht := ht
    · simp only [HashTree.texts, List.mem_cons, List.mem_append] at hx
      obtain rfl | hx | hx := hx
      · exact .inl (.inl rfl)
      · exact .inr ⟨left, .inl rfl, hx⟩
      · exact .inr ⟨right, .inr (.inl rfl), hx⟩
    · obtain hx | ⟨t', ht', hx⟩ := ih ht
      · exact .inl (.inr hx)
      · exact .inr ⟨t', .inr (.inr ht'), hx⟩
  | case2 trees hshort =>
    cases trees with
    | nil => cases ht
    | cons left rest =>
      cases rest with
      | nil => cases ht
      | cons right rest => exact absurd rfl (hshort left right rest)

/-- The texts of what is built from some trees. -/
theorem texts_of_mem_climb {turns : ℕ} {trees : List ContentTree} {t : ContentTree}
    (ht : t ∈ HashTree.climb turns trees) {x : String} (hx : x ∈ t.texts sha256 leafText) :
    x ∈ treeTexts sha256 turns (trees.map (HashTree.hash sha256 leafText)) ∨
      ∃ t' ∈ trees, x ∈ t'.texts sha256 leafText := by
  induction turns generalizing trees with
  | zero => exact .inr ⟨t, ht, hx⟩
  | succ turns ih =>
    unfold HashTree.climb at ht
    unfold treeTexts
    rw [List.length_map]
    split_ifs at ht ⊢ with hmore
    · have hlevel : nextLevel sha256 (trees.map (HashTree.hash sha256 leafText)) =
          (HashTree.level trees).map (HashTree.hash sha256 leafText) := by
        rw [nextLevel_eq, evened_map_hash, pairTexts_map_hash]
        rfl
      rw [List.mem_append, hlevel, evened_map_hash]
      obtain hx | ⟨t', ht', hx⟩ := ih ht
      · exact .inl (.inr hx)
      · obtain hx | ⟨t'', ht'', hx⟩ := texts_of_mem_pairs ht' hx
        · exact .inl (.inl hx)
        · refine .inr ⟨t'', ?_, hx⟩
          split_ifs at ht'' with hodd
          · obtain ht'' | ht'' := List.mem_append.mp ht''
            · exact ht''
            · exact List.mem_of_getLast? (Option.mem_toList.mp ht'')
          · exact ht''
    · exact .inr ⟨t, ht, hx⟩

/-- The root of hashes is what is left of them at the top. -/
theorem merkleRoot_of_ne_nil (sha256 : String → String) {hashes : List String}
    (hne : hashes ≠ []) :
    merkleRoot sha256 hashes = (climb sha256 hashes.length hashes).headD "" := by
  unfold merkleRoot
  split
  · exact absurd rfl hne
  · rfl

/-- The texts that are hashed for contents are those of the leaves and those of the nodes. -/
theorem hashedTexts_of_ne_nil (sha256 : String → String) {contentHashes : List String}
    (hne : contentHashes ≠ []) :
    hashedTexts sha256 contentHashes = (contentHashes.mapIdx fun i c => leafText (i, c)) ++
      treeTexts sha256 contentHashes.length (leafHashes sha256 contentHashes) := by
  unfold hashedTexts
  split
  · exact absurd rfl hne
  · rfl

/-- The trees that are built from the leaves of some contents end in one, and the hash of this one
is the root. -/
theorem exists_climb_contentLeaves (sha256 : String → String) {contentHashes : List String}
    (hne : contentHashes ≠ []) :
    ∃ t, HashTree.climb contentHashes.length (contentLeaves contentHashes) = [t] ∧
      merkleRoot sha256 (leafHashes sha256 contentHashes) = t.hash sha256 leafText := by
  have hlength : (leafHashes sha256 contentHashes).length = contentHashes.length := by
    unfold leafHashes
    rw [List.length_mapIdx]
  have hne' : leafHashes sha256 contentHashes ≠ [] := by
    intro hnil
    rw [hnil] at hlength
    exact hne (List.eq_nil_of_length_eq_zero hlength.symm)
  have hone := length_climb sha256 contentHashes.length _ hne' hlength.le
  have hclimb := climb_map_hash sha256 contentHashes.length (contentLeaves contentHashes)
  rw [map_hash_contentLeaves] at hclimb
  rw [hclimb, List.length_map] at hone
  obtain ⟨t, ht⟩ := List.length_eq_one_iff.mp hone
  refine ⟨t, ht, ?_⟩
  rw [merkleRoot_of_ne_nil sha256 hne', hlength, hclimb, ht]
  rfl

/-- The root of some contents is the hash of a tree with exactly these contents. -/
theorem exists_contentTree (sha256 : String → String)
    {contentHashes : List String} (hne : contentHashes ≠ []) :
    ∃ t : ContentTree, merkleRoot sha256 (leafHashes sha256 contentHashes) =
        t.hash sha256 leafText ∧
      (∀ i c, (i, c) ∈ t.values ↔ contentHashes[i]? = some c) ∧
      ∀ x ∈ t.texts sha256 leafText, x ∈ hashedTexts sha256 contentHashes := by
  obtain ⟨t, ht, hroot⟩ := exists_climb_contentLeaves sha256 hne
  refine ⟨t, hroot, fun i c => ?_, fun x hx => ?_⟩
  · have hvalues := HashTree.occurs_climb (a := (i, c)) contentHashes.length
      (contentLeaves contentHashes)
    rw [ht, occurs_contentLeaves] at hvalues
    rw [← hvalues]
    simp [HashTree.Occurs]
  · have hmem : t ∈ HashTree.climb contentHashes.length (contentLeaves contentHashes) := by
      rw [ht]
      exact List.mem_singleton.mpr rfl
    rw [hashedTexts_of_ne_nil sha256 hne, List.mem_append]
    obtain hx | ⟨t', ht', hx⟩ := texts_of_mem_climb hmem hx
    · rw [map_hash_contentLeaves] at hx
      exact .inr hx
    · obtain ⟨i, hi, rfl⟩ := List.mem_mapIdx.mp ht'
      exact .inl (List.mem_mapIdx.mpr ⟨i, hi, (List.mem_singleton.mp hx).symm⟩)

end Trees

section Texts

theorem not_colon_of_mem_toString {n : ℕ} {c : Char} (h : c ∈ (toString n).toList) :
    c ≠ ':' := by
  rintro rfl
  have hdigit : ':' ∈ Nat.toDigits 10 n := by
    rw [← Nat.toList_repr]
    exact h
  exact absurd (Nat.isDigit_of_mem_toDigits (by omega) (by omega) hdigit) (by decide)

/-- The text of a leaf determines its index and its content. -/
theorem leafText_inj {a b : ℕ × String} (h : leafText a = leafText b) : a = b := by
  have hlists := congrArg String.toList h
  unfold leafText at hlists
  simp only [String.toList_append, List.append_assoc] at hlists
  obtain ⟨hindex, hcontent⟩ := @Json.append_cons_inj Char (fun c => c = ':') _ _ _ _ _ _
    (fun c hc => not_colon_of_mem_toString hc) (fun c hc => not_colon_of_mem_toString hc) rfl rfl
    hlists
  have hdigits : Nat.toDigits 10 a.1 = Nat.toDigits 10 b.1 := by
    rw [← Nat.toList_repr, ← Nat.toList_repr]
    exact hindex
  exact Prod.ext (Json.toDigits_inj hdigits) (String.toList_inj.mp (List.cons.inj hcontent).2)

/-- The text of a leaf has a colon. -/
theorem colon_mem_leafText (leaf : ℕ × String) : ':' ∈ (leafText leaf).toList := by
  simp [leafText, String.toList_append]

/-- The text of a leaf has a colon, and a hash has none. -/
theorem leafText_ne_hashes (leaf : ℕ × String) (x y : String) :
    leafText leaf ≠ Sha256.hexdigestString x ++ Sha256.hexdigestString y := by
  intro h
  have hcolon := colon_mem_leafText leaf
  rw [h, String.toList_append, List.mem_append] at hcolon
  obtain hcolon | hcolon := hcolon
  · exact absurd (Sha256.mem_hexdigest hcolon) (by decide)
  · exact absurd (Sha256.mem_hexdigest hcolon) (by decide)

/-- The text for no contents is not one that is hashed for a tree. -/
theorem empty_not_mem_texts (t : ContentTree) :
    "empty" ∉ t.texts Sha256.hexdigestString leafText := by
  induction t with
  | leaf a =>
    intro h
    have hcolon := colon_mem_leafText a
    rw [← List.mem_singleton.mp h] at hcolon
    revert hcolon
    decide
  | node left right ihleft ihright =>
    intro h
    obtain h | h := List.mem_cons.mp h
    · obtain ⟨x, -, hx⟩ := HashTree.hash_eq Sha256.hexdigestString leafText left
      have hlength := congrArg String.length h
      rw [hx, String.length_append, Sha256.hexdigestString, Sha256.length_hexdigest] at hlength
      have hfive : "empty".length = 5 := rfl
      omega
    · obtain h | h := List.mem_append.mp h
      · exact ihleft h
      · exact ihright h

end Texts

/-- The root of no contents is not that of others. -/
theorem merkleRoot_ne_empty {contentHashes : List String} (hne : contentHashes ≠ [])
    (hclash : NoClash Sha256.hexdigestString ["empty"]
      (hashedTexts Sha256.hexdigestString contentHashes)) :
    Sha256.hexdigestString "empty" ≠
      merkleRoot Sha256.hexdigestString (leafHashes Sha256.hexdigestString contentHashes) := by
  intro h
  obtain ⟨t, hroot, -, htexts⟩ := exists_contentTree Sha256.hexdigestString hne
  obtain ⟨x, hx, hhash⟩ := HashTree.hash_eq Sha256.hexdigestString leafText t
  rw [hroot, hhash] at h
  have hempty := hclash _ List.mem_cons_self x (htexts x hx) h
  rw [← hempty] at hx
  exact empty_not_mem_texts t hx

/-- Two lists of contents with one root are the same list, whatever their lengths, if no text
that is hashed for one of them has the same hash as another text that is hashed for the other. -/
theorem contents_of_merkleRoot (contentHashes contentHashes' : List String)
    (hclash : NoClash Sha256.hexdigestString (hashedTexts Sha256.hexdigestString contentHashes)
      (hashedTexts Sha256.hexdigestString contentHashes'))
    (hroot : merkleRoot Sha256.hexdigestString (leafHashes Sha256.hexdigestString contentHashes) =
      merkleRoot Sha256.hexdigestString (leafHashes Sha256.hexdigestString contentHashes')) :
    contentHashes = contentHashes' := by
  by_cases hne : contentHashes = []
  · by_cases hne' : contentHashes' = []
    · rw [hne, hne']
    · subst hne
      exact absurd hroot (merkleRoot_ne_empty hne' hclash)
  · by_cases hne' : contentHashes' = []
    · subst hne'
      refine absurd hroot.symm (merkleRoot_ne_empty hne fun x hx y hy h => ?_)
      exact (hclash y hy x hx h.symm).symm
    · obtain ⟨t, ht, hvalues, htexts⟩ :=
        exists_contentTree Sha256.hexdigestString hne
      obtain ⟨t', ht', hvalues', htexts'⟩ :=
        exists_contentTree Sha256.hexdigestString hne'
      rw [ht, ht'] at hroot
      have htree : t = t' := HashTree.hash_inj (fun x => Sha256.length_hexdigest _)
        (fun a b => leafText_inj) leafText_ne_hashes
        (fun x hx y hy => hclash x (htexts x hx) y (htexts' y hy)) hroot
      refine List.ext_getElem? fun i => Option.ext fun c => ?_
      rw [← hvalues, ← hvalues', htree]

/-- Two contents of 64 hexadecimal digits. -/
private def twoContents : List String :=
  [String.ofList (List.replicate 64 'a'), String.ofList (List.replicate 64 'b')]

/-- No two texts that are hashed for them have the same hash. -/
theorem contents_of_two :
    NoClash Sha256.hexdigestString (hashedTexts Sha256.hexdigestString twoContents)
        (hashedTexts Sha256.hexdigestString twoContents) ∧ twoContents = twoContents := by
  have hclash : NoClash Sha256.hexdigestString
      (hashedTexts Sha256.hexdigestString twoContents)
      (hashedTexts Sha256.hexdigestString twoContents) := by
    have hnodup : ((hashedTexts Sha256.hexdigestString twoContents).map
        Sha256.hexdigestString).Nodup := by decide +kernel
    exact fun x hx y hy h => List.inj_on_of_nodup_map hnodup hx hy h
  exact ⟨hclash, contents_of_merkleRoot twoContents twoContents hclash rfl⟩

end LedgerLens.Audit
