import ModuleRecovery.Proofs.Dendrogram.Numbering
import ModuleRecovery.Proofs.Lists

/-!
# The tree of a clustering

A step takes two clusters out of a level and puts one behind the others, numbered
above all that are there.  So the numbers increase along every level, and since
the left part of a merge stood before the right part, they increase from the left
part to the right part and from there to the merge.

The step keeps all clusters in the trees of the level and adds the merge.  The
trees of a level therefore hold exactly what has stood in the levels so far, and
the tree of the last level holds the clusters of all levels.
-/

namespace ModuleRecovery

variable {ι α : Type}

/-! ## Levels in order -/

namespace Level

/-- The numbers increase along the level up to a bound, and in its trees from the
left part of a merge to the right part and to the merge itself. -/
structure Ascends (level : Level ι α) (bound : Nat) : Prop where
  increasing : level.Pairwise fun a b => a.id < b.id
  below : ∀ cluster ∈ level, cluster.id < bound
  parts : ∀ id left right coupling,
    Cluster.merge id left right coupling ∈ level.flatMap Cluster.subtree →
      left.id < right.id ∧ right.id < id

theorem mem_ofItems_iff {items : List ι} {cluster : Cluster ι α} :
    cluster ∈ (ofItems items : Level ι α) ↔
      ∃ id item, items[id]? = some item ∧ cluster = .leaf id item := by
  simp only [ofItems, List.mem_map, Prod.exists, List.mem_zipIdx_iff_getElem?]
  constructor
  · rintro ⟨item, id, hitem, rfl⟩
    exact ⟨id, item, hitem, rfl⟩
  · rintro ⟨id, item, hitem, rfl⟩
    exact ⟨item, id, hitem, rfl⟩

theorem ascends_ofItems (items : List ι) :
    (ofItems items : Level ι α).Ascends items.length := by
  constructor
  · exact List.pairwise_map.mpr (pairwise_zipIdx items)
  · intro cluster hcluster
    rcases mem_ofItems_iff.mp hcluster with ⟨id, item, hitem, rfl⟩
    exact (List.getElem?_eq_some_iff.mp hitem).1
  · intro id left right coupling hmem
    rw [flatMap_subtree_ofItems] at hmem
    rcases mem_ofItems_iff.mp hmem with ⟨_, _, _, hleaf⟩
    cases hleaf

theorem mem_flatMap_subtree_merge {choice : Choice ι α} {level : Level ι α}
    (hfits : choice.FitsLevel level) (id : Nat) (cluster : Cluster ι α) :
    cluster ∈ (choice.others level ++
        [Cluster.merge id choice.left choice.right choice.coupling]).flatMap
          Cluster.subtree ↔
      cluster ∈ level.flatMap Cluster.subtree ∨
        cluster = .merge id choice.left choice.right choice.coupling := by
  rw [(flatMap_subtree_merge hfits id).mem_iff, List.mem_append,
    List.mem_singleton]

theorem Ascends.left_lt_right {level : Level ι α} {bound : Nat}
    (h : level.Ascends bound) {choice : Choice ι α}
    (hfits : choice.FitsLevel level) : choice.left.id < choice.right.id := by
  rcases List.getElem?_eq_some_iff.mp hfits.left with ⟨hleft, hleftEq⟩
  rcases List.getElem?_eq_some_iff.mp hfits.right with ⟨hright, hrightEq⟩
  have hlt := List.pairwise_iff_getElem.mp h.increasing _ _ hleft hright
    hfits.ordered
  rwa [hleftEq, hrightEq] at hlt

theorem Ascends.merge {level : Level ι α} {bound : Nat}
    (h : level.Ascends bound) {choice : Choice ι α}
    (hfits : choice.FitsLevel level) :
    Ascends (choice.others level ++
      [.merge bound choice.left choice.right choice.coupling])
        (bound + 1) := by
  have hothers : (choice.others level).Sublist level :=
    (List.eraseIdx_sublist _ _).trans (List.eraseIdx_sublist _ _)
  constructor
  · refine List.pairwise_append.mpr
      ⟨h.increasing.sublist hothers, List.pairwise_singleton _ _, ?_⟩
    intro a ha b hb
    rw [List.mem_singleton.mp hb]
    exact h.below a (hothers.subset ha)
  · intro cluster hcluster
    rcases List.mem_append.mp hcluster with hold | hnew
    · exact Nat.lt_succ_of_lt (h.below cluster (hothers.subset hold))
    · rw [List.mem_singleton.mp hnew]
      exact Nat.lt_succ_self bound
  · intro id left right coupling hmem
    rcases (mem_flatMap_subtree_merge hfits bound _).mp hmem with hold | hnew
    · exact h.parts id left right coupling hold
    · cases hnew
      exact ⟨h.left_lt_right hfits,
        h.below _ (List.mem_of_getElem? hfits.right)⟩

end Level

namespace Dendrogram

variable [Score α] {scores : ι → ι → α} {items : List ι}

theorem ascends_of_getElem?_levels {k : Nat} {level : Level ι α}
    (hlevel : (ofItems scores items).levels[k]? = some level) :
    level.Ascends (items.length + k) := by
  refine levels_induction
    (P := fun k level => level.Ascends (items.length + k))
    (Level.ascends_ofItems items) ?_ hlevel
  intro k level next hascends hstep
  rcases Level.step?_cases hstep with ⟨choice, _, hfits, _, rfl⟩
  exact hascends.merge hfits

/-! ## Levels and trees -/

theorem leaf_mem_flatMap_subtree_iff {k : Nat} {level : Level ι α}
    (hlevel : (ofItems scores items).levels[k]? = some level) (id : Nat)
    (item : ι) :
    .leaf id item ∈ level.flatMap Cluster.subtree ↔
      items[id]? = some item := by
  refine levels_induction
    (P := fun _ level => .leaf id item ∈ level.flatMap Cluster.subtree ↔
      items[id]? = some item) ?_ ?_ hlevel
  · rw [Level.flatMap_subtree_ofItems, Level.mem_ofItems_iff]
    simp
  · intro k level next hleaf hstep
    rcases Level.step?_cases hstep with ⟨choice, _, hfits, _, rfl⟩
    rw [Level.mem_flatMap_subtree_merge hfits, ← hleaf]
    simp

theorem mem_flatMap_subtree_iff {k : Nat} {level : Level ι α}
    (hlevel : (ofItems scores items).levels[k]? = some level)
    (cluster : Cluster ι α) :
    cluster ∈ level.flatMap Cluster.subtree ↔
      ∃ j earlier, j ≤ k ∧ (ofItems scores items).levels[j]? = some earlier ∧
        cluster ∈ earlier := by
  induction k generalizing level with
  | zero =>
      have hflat : level.flatMap Cluster.subtree = level := by
        rw [eq_ofItems_of_getElem?_levels_zero hlevel,
          Level.flatMap_subtree_ofItems]
      rw [hflat]
      constructor
      · intro hmem
        exact ⟨0, level, le_rfl, hlevel, hmem⟩
      · rintro ⟨j, earlier, hj, hearlier, hmem⟩
        rw [Nat.le_zero.mp hj, hlevel] at hearlier
        cases hearlier
        exact hmem
  | succ k ih =>
      have hnext := hlevel
      rw [getElem?_levels_succ] at hnext
      rcases Option.bind_eq_some_iff.mp hnext with ⟨before, hbefore, hstep⟩
      rcases Level.step?_cases hstep with ⟨choice, _, hfits, _, heq⟩
      -- the one cluster that the step adds to the trees stands in this level
      constructor
      · intro hmem
        rw [heq, Level.mem_flatMap_subtree_merge hfits] at hmem
        rcases hmem with hold | hnew
        · rcases (ih hbefore).mp hold with ⟨j, earlier, hj, hearlier⟩
          exact ⟨j, earlier, Nat.le_succ_of_le hj, hearlier⟩
        · refine ⟨k + 1, level, le_rfl, hlevel, ?_⟩
          rw [heq, hnew]
          exact List.mem_append_right _ (List.mem_singleton_self _)
      · rintro ⟨j, earlier, hj, hearlier, hmem⟩
        rcases Nat.le_succ_iff.mp hj with hj | rfl
        · rw [heq, Level.mem_flatMap_subtree_merge hfits]
          exact .inl ((ih hbefore).mpr ⟨j, earlier, hj, hearlier, hmem⟩)
        · rw [hlevel] at hearlier
          cases hearlier
          exact List.mem_flatMap.mpr ⟨cluster, hmem, cluster.mem_subtree_self⟩

/-- A step makes one cluster, whose number tells the step. -/
theorem exists_created {k : Nat} {level next : Level ι α}
    (hlevel : (ofItems scores items).levels[k]? = some level)
    (hnext : (ofItems scores items).levels[k + 1]? = some next) :
    ∃ created, created.id = items.length + k ∧
      next.getLast? = some created ∧
      ∀ cluster, cluster ∈ next ∧ cluster ∉ level ↔ cluster = created := by
  have hbelow := (ascends_of_getElem?_levels hlevel).below
  rcases Level.step?_cases (step?_of_getElem?_levels hlevel hnext) with
    ⟨choice, _, hfits, _, rfl⟩
  refine ⟨.merge (items.length + k) choice.left choice.right choice.coupling,
    rfl, List.getLast?_concat, ?_⟩
  intro cluster
  rw [List.mem_append, List.mem_singleton]
  constructor
  · rintro ⟨hold | hnew, hnotMem⟩
    · exact absurd (hfits.mem_of_mem_others hold) hnotMem
    · exact hnew
  · rintro rfl
    exact ⟨.inr rfl, fun hmem => lt_irrefl _ (hbelow _ hmem)⟩

theorem mem_subtree_root_iff {root : Cluster ι α}
    (hroot : (ofItems scores items).levels[items.length - 1]? = some [root])
    (cluster : Cluster ι α) :
    cluster ∈ root.subtree ↔
      ∃ level ∈ (ofItems scores items).levels, cluster ∈ level := by
  have hmem := mem_flatMap_subtree_iff hroot cluster
  rw [List.flatMap_singleton] at hmem
  rw [hmem]
  constructor
  · rintro ⟨j, level, _, hlevel, hcluster⟩
    exact ⟨level, List.mem_of_getElem? hlevel, hcluster⟩
  · rintro ⟨level, hlevel, hcluster⟩
    rcases List.mem_iff_getElem?.mp hlevel with ⟨j, hj⟩
    have hbound := (List.getElem?_eq_some_iff.mp hj).1
    rw [length_levels] at hbound
    exact ⟨j, level, Nat.le_sub_one_of_lt hbound, hj, hcluster⟩

end Dendrogram

/-! ## The root -/

/-- All clusters of a clustering of `n` classes are in the tree of one of them,
numbered in the order they were made. -/
structure Dendrogram.HasTree {n : Nat} (dendrogram : Dendrogram (Fin n) α)
    (root : Cluster (Fin n) α) : Prop where
  isRoot : dendrogram.root? = some root
  length : root.subtree.length = 2 * n - 1
  numbers : (root.subtree.map Cluster.id).Perm (List.range (2 * n - 1))
  exists_leaf : ∀ i : Fin n, ∃ cluster ∈ root.subtree,
    cluster.children? = none ∧ cluster.id = i ∧ cluster.members = [i]
  of_leaf : ∀ cluster ∈ root.subtree, cluster.children? = none →
    ∃ i : Fin n, cluster.id = i ∧ cluster.members = [i]
  created : ∀ k level next, dendrogram.levels[k]? = some level →
    dendrogram.levels[k + 1]? = some next →
      ∃ made, made.id = n + k ∧ next.getLast? = some made ∧
        ∀ cluster, cluster ∈ next ∧ cluster ∉ level ↔ cluster = made
  parts : ∀ id left right coupling,
    Cluster.merge id left right coupling ∈ root.subtree →
      left.id < right.id ∧ right.id < id
  mem_iff : ∀ cluster, cluster ∈ root.subtree ↔
    ∃ level ∈ dendrogram.levels, cluster ∈ level
  block : ∀ cluster ∈ root.subtree, cluster.subtree <:+: root.subtree
  increasing : ∀ level ∈ dendrogram.levels,
    level.Pairwise fun a b => a.id < b.id

theorem Dendrogram.exists_hasTree [Score α] {n : Nat}
    (scores : Fin n → Fin n → α) (hn : 0 < n) :
    ∃ root, (ofItems scores (List.finRange n)).HasTree root := by
  have hlength : (List.finRange n).length = n := List.length_finRange
  have hne : List.finRange n ≠ [] := List.ne_nil_of_length_pos (by omega)
  rcases exists_root? scores hne with ⟨root, hroot, hlast⟩
  have hleaf := leaf_mem_flatMap_subtree_iff hlast
  have hparts := (ascends_of_getElem?_levels hlast).parts
  have hnumbers := numbers_perm_range hlast
  rw [Level.numbers, hlength, show n + (n - 1) = 2 * n - 1 by omega]
    at hnumbers
  simp only [List.flatMap_singleton] at hleaf hparts hnumbers
  have hofLeaf : ∀ cluster ∈ root.subtree, cluster.children? = none →
      ∃ i : Fin n, cluster.id = i ∧ cluster.members = [i] := by
    intro cluster hcluster hchildren
    cases cluster with
    | leaf id item =>
        have hitem := (hleaf id item).mp hcluster
        rcases List.getElem?_eq_some_iff.mp hitem with ⟨hid, rfl⟩
        exact ⟨_, by simp [Cluster.id], rfl⟩
    | merge id left right coupling => simp [Cluster.children?] at hchildren
  use root
  exact
    { isRoot := hroot
      length := by simpa using hnumbers.length_eq
      numbers := hnumbers
      exists_leaf := by
        intro i
        exact ⟨.leaf i i, (hleaf i i).mpr (by simp), rfl, rfl, rfl⟩
      of_leaf := hofLeaf
      created := by
        intro k level next hlevel hnext
        have hcreated := exists_created hlevel hnext
        rwa [hlength] at hcreated
      parts := hparts
      mem_iff := mem_subtree_root_iff hlast
      block := by
        intro cluster hcluster
        exact Cluster.subtree_infix_of_mem hcluster
      increasing := by
        intro level hlevel
        rcases List.mem_iff_getElem?.mp hlevel with ⟨k, hk⟩
        exact (ascends_of_getElem?_levels hk).increasing }

namespace Clustering

/-- The walk of a tree with a stack lists each cluster before all of its left part
and that before all of its right part, so the leaves are met in the order of the
members.  The walk from the root of a run on `n` names lists the clusters of all
levels. -/
theorem run_has_tree [Score α] (coupling : Coupling) (names : Array String)
    (hnames : 0 < names.size) :
    (∀ cluster : Cluster (Fin names.size) α,
      cluster.subtree = cluster.preorder ∧
        cluster.subtree.filterMap Cluster.item? = cluster.members) ∧
      ∃ root, (run coupling names : Clustering α).dendrogram.HasTree root := by
  constructor
  · intro cluster
    exact ⟨cluster.subtree_eq_preorder, cluster.filterMap_item?_subtree⟩
  · exact Dendrogram.exists_hasTree _ hnames

/-- `A` and `B` are merged first, and then `C` with them. -/
theorem run_has_tree_three_classes :
    let names := #["A", "B", "C"]
    0 < names.size ∧
      ∃ coupling, Coupling.ofCounts? [(.of "A" "B", 6), (.of "A" "C", 2),
          (.of "B" "C", 2)] = some coupling ∧
        ∃ root, (run coupling names :
            Clustering Float).dendrogram.HasTree root ∧
          root.subtree.map Cluster.id = [4, 2, 3, 0, 1] := by
  intro names
  have hrun : (Coupling.ofCounts? [(.of "A" "B", 6), (.of "A" "C", 2),
      (.of "B" "C", 2)]).any (fun coupling =>
        (run coupling names : Clustering Float).dendrogram.root?.map
          (fun root => root.preorder.map Cluster.id) ==
            some [4, 2, 3, 0, 1]) = true := by
    decide +kernel
  rcases (Option.any_eq_true _ _).mp hrun with ⟨coupling, hcoupling, hwalk⟩
  have hnames : 0 < names.size := by decide
  rcases (run_has_tree (α := Float) coupling names hnames).2 with ⟨root, hroot⟩
  have hwalk := beq_iff_eq.mp hwalk
  rw [hroot.isRoot, Option.map_some, ← Cluster.subtree_eq_preorder] at hwalk
  exact ⟨hnames, coupling, hcoupling, root, hroot, Option.some.inj hwalk⟩

end Clustering

end ModuleRecovery
