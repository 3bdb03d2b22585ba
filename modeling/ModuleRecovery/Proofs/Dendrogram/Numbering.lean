import ModuleRecovery.Proofs.Dendrogram.Partition

/-!
# Walks and numbers

The clusters below a cluster are listed with a stack of trees that are still to
be walked.  The list is the one that the recursion on the tree gives: a cluster,
all that is in its left part, all that is in its right part.

At every level of a clustering the clusters in all its trees have been numbered
without gaps in the order they were made, and no number was given twice.  So
within a clustering a number stands for one cluster.
-/

namespace ModuleRecovery

variable {ι α : Type}

/-! ## The walk -/

namespace Cluster

/-- The cluster, the walk of its left part and the walk of its right part. -/
def preorder : Cluster ι α → List (Cluster ι α)
  | leaf id item => [leaf id item]
  | merge id left right coupling =>
    merge id left right coupling :: (left.preorder ++ right.preorder)

theorem traverse_eq_flatMap_preorder (stack : List (Cluster ι α)) :
    traverse stack = stack.flatMap preorder := by
  induction stack using traverse.induct with
  | case1 => simp [traverse]
  | case2 id item rest ih => simp [traverse, preorder, ih]
  | case3 id left right coupling rest ih => simp [traverse, preorder, ih]

theorem subtree_eq_preorder (cluster : Cluster ι α) :
    cluster.subtree = cluster.preorder := by
  simp [subtree, traverse_eq_flatMap_preorder]

@[simp] theorem subtree_leaf (id : Nat) (item : ι) :
    (leaf id item : Cluster ι α).subtree = [leaf id item] := by
  simp [subtree_eq_preorder, preorder]

@[simp] theorem subtree_merge (id : Nat) (left right : Cluster ι α)
    (coupling : α) :
    (merge id left right coupling).subtree =
      merge id left right coupling :: (left.subtree ++ right.subtree) := by
  simp [subtree_eq_preorder, preorder]

theorem length_subtree (cluster : Cluster ι α) :
    cluster.subtree.length + 1 = 2 * cluster.members.length := by
  induction cluster with
  | leaf id item => simp [members]
  | merge id left right coupling ihLeft ihRight =>
      simp only [subtree_merge, members, List.length_cons, List.length_append]
      omega

theorem mem_subtree_self (cluster : Cluster ι α) :
    cluster ∈ cluster.subtree := by
  cases cluster <;> simp

theorem subtree_infix_of_mem {part cluster : Cluster ι α}
    (h : part ∈ cluster.subtree) : part.subtree <:+: cluster.subtree := by
  induction cluster with
  | leaf id item =>
      simp only [subtree_leaf, List.mem_singleton] at h
      rw [h]
  | merge id left right coupling ihLeft ihRight =>
      rw [subtree_merge, List.mem_cons, List.mem_append] at h
      rcases h with rfl | hleft | hright
      · exact List.infix_rfl
      · rw [subtree_merge]
        apply List.infix_cons
        exact (ihLeft hleft).trans (List.prefix_append _ _).isInfix
      · rw [subtree_merge]
        apply List.infix_cons
        exact (ihRight hright).trans (List.suffix_append _ _).isInfix

def item? : Cluster ι α → Option ι
  | leaf _ item => some item
  | merge _ _ _ _ => none

theorem filterMap_item?_subtree (cluster : Cluster ι α) :
    cluster.subtree.filterMap item? = cluster.members := by
  induction cluster with
  | leaf id item => simp [item?, members]
  | merge id left right coupling ihLeft ihRight =>
      rw [subtree_merge, List.filterMap_cons_none rfl, List.filterMap_append,
        ihLeft, ihRight, members]

theorem members_sublist_of_mem_subtree {part cluster : Cluster ι α}
    (h : part ∈ cluster.subtree) :
    part.members.Sublist cluster.members := by
  rw [← filterMap_item?_subtree, ← filterMap_item?_subtree]
  exact (subtree_infix_of_mem h).sublist.filterMap item?

end Cluster

/-! ## Numbers -/

namespace Level

/-- The numbers of all clusters in the trees of the level. -/
def numbers (level : Level ι α) : List Nat :=
  (level.flatMap Cluster.subtree).map Cluster.id

theorem flatMap_subtree_ofItems (items : List ι) :
    (ofItems items : Level ι α).flatMap Cluster.subtree = ofItems items := by
  simp only [ofItems, List.flatMap_map, Cluster.subtree_leaf]
  exact List.flatMap_pure_eq_map _ items.zipIdx

theorem numbers_ofItems (items : List ι) :
    (ofItems items : Level ι α).numbers = List.range items.length := by
  have hnumbers : (ofItems items : Level ι α).numbers =
      items.zipIdx.map Prod.snd := by
    rw [numbers, flatMap_subtree_ofItems, ofItems, List.map_map]
    rfl
  rw [hnumbers, List.zipIdx_map_snd, List.range_eq_range']

/-- A merge adds one cluster to those in the trees of the level. -/
theorem flatMap_subtree_merge {choice : Choice ι α} {level : Level ι α}
    (hfits : choice.FitsLevel level) (id : Nat) :
    ((choice.others level ++
      [Cluster.merge id choice.left choice.right choice.coupling]).flatMap
        Cluster.subtree).Perm
      (level.flatMap Cluster.subtree ++
        [Cluster.merge id choice.left choice.right choice.coupling]) := by
  generalize hmerged : Cluster.merge id choice.left choice.right
    choice.coupling = merged
  have hlevel := hfits.perm.flatMap_right Cluster.subtree
  rw [List.flatMap_cons, List.flatMap_cons, ← List.append_assoc] at hlevel
  have hsubtree : merged.subtree =
      merged :: (choice.left.subtree ++ choice.right.subtree) := by
    rw [← hmerged, Cluster.subtree_merge]
  rw [List.flatMap_append, List.flatMap_singleton, hsubtree]
  calc
    ((choice.others level).flatMap Cluster.subtree ++
        merged :: (choice.left.subtree ++ choice.right.subtree)).Perm
        (merged :: ((choice.others level).flatMap Cluster.subtree ++
          (choice.left.subtree ++ choice.right.subtree))) := List.perm_middle
    _ |>.Perm (merged :: (choice.left.subtree ++ choice.right.subtree ++
        (choice.others level).flatMap Cluster.subtree)) :=
      List.perm_append_comm.cons merged
    _ |>.Perm (merged :: level.flatMap Cluster.subtree) :=
      hlevel.symm.cons merged
    _ |>.Perm (level.flatMap Cluster.subtree ++ [merged]) :=
      (List.perm_append_singleton _ _).symm

end Level

namespace Dendrogram

variable [Score α] {scores : ι → ι → α} {items : List ι}

/-- Before the step that makes the cluster numbered `n + k`, the numbers below it
are in use, each once. -/
theorem numbers_perm_range {k : Nat} {level : Level ι α}
    (hlevel : (ofItems scores items).levels[k]? = some level) :
    level.numbers.Perm (List.range (items.length + k)) := by
  refine levels_induction
    (P := fun k level =>
      level.numbers.Perm (List.range (items.length + k))) ?_ ?_ hlevel
  · rw [Level.numbers_ofItems]
    simp
  · intro k level next hnumbers hstep
    obtain ⟨choice, -, hfits, -, rfl⟩ := Level.step?_cases hstep
    rw [← Nat.add_assoc, List.range_succ]
    have hmerged := (Level.flatMap_subtree_merge hfits
      (items.length + k)).map Cluster.id
    rw [List.map_append] at hmerged
    exact hmerged.trans (hnumbers.append_right _)

theorem exists_root? (scores : ι → ι → α) (hitems : items ≠ []) :
    ∃ root, (ofItems scores items).root? = some root ∧
      (ofItems scores items).levels[items.length - 1]? = some [root] := by
  have hpos := List.length_pos_of_ne_nil hitems
  obtain ⟨level, hlevel⟩ :=
    exists_getElem?_levels scores (Nat.sub_one_lt_of_lt hpos)
  have hlength := length_of_getElem?_levels hlevel
  obtain ⟨root, rfl⟩ : ∃ root, level = [root] :=
    List.length_eq_one_iff.mp (by omega)
  refine ⟨root, ?_, hlevel⟩
  unfold root?
  rw [List.getLast?_eq_getElem?, length_levels, hlevel]

theorem exists_clusters_eq (scores : ι → ι → α) (hitems : items ≠ []) :
    ∃ root, (ofItems scores items).clusters = root.subtree ∧
      (ofItems scores items).levels[items.length - 1]? = some [root] := by
  obtain ⟨root, hroot, hlevel⟩ := exists_root? scores hitems
  refine ⟨root, ?_, hlevel⟩
  simp [clusters, hroot]

theorem exists_clusters_eq_of_mem {cluster : Cluster ι α}
    (h : cluster ∈ (ofItems scores items).clusters) :
    ∃ root, (ofItems scores items).clusters = root.subtree ∧
      (ofItems scores items).levels[items.length - 1]? = some [root] := by
  apply exists_clusters_eq
  rintro rfl
  simp [clusters, root?, ofItems] at h

theorem length_clusters (scores : ι → ι → α) (items : List ι) :
    (ofItems scores items).clusters.length = 2 * items.length - 1 := by
  by_cases hitems : items = []
  · subst hitems
    rfl
  · obtain ⟨root, hclusters, hlevel⟩ := exists_clusters_eq scores hitems
    have hmembers := (flatMap_members_perm hlevel).length_eq
    have hlength := root.length_subtree
    rw [List.flatMap_singleton] at hmembers
    rw [hclusters]
    omega

theorem nodup_map_id_clusters (scores : ι → ι → α) (items : List ι) :
    ((ofItems scores items).clusters.map Cluster.id).Nodup := by
  by_cases hitems : items = []
  · subst hitems
    exact List.nodup_nil
  · obtain ⟨root, hclusters, hlevel⟩ := exists_clusters_eq scores hitems
    have hnumbers := numbers_perm_range hlevel
    rw [Level.numbers, List.flatMap_singleton] at hnumbers
    rw [hclusters, hnumbers.nodup_iff]
    exact List.nodup_range

theorem mem_clusters_of_mem_subtree {part cluster : Cluster ι α}
    (hcluster : cluster ∈ (ofItems scores items).clusters)
    (hpart : part ∈ cluster.subtree) :
    part ∈ (ofItems scores items).clusters := by
  obtain ⟨root, hclusters, -⟩ := exists_clusters_eq_of_mem hcluster
  rw [hclusters] at hcluster ⊢
  exact (Cluster.subtree_infix_of_mem hcluster).subset hpart

theorem nodup_members_of_mem_clusters (hitems : items.Nodup)
    {cluster : Cluster ι α}
    (hcluster : cluster ∈ (ofItems scores items).clusters) :
    cluster.members.Nodup := by
  obtain ⟨root, hclusters, hlevel⟩ := exists_clusters_eq_of_mem hcluster
  have hmembers := flatMap_members_perm hlevel
  rw [List.flatMap_singleton] at hmembers
  rw [hclusters] at hcluster
  exact (hmembers.nodup_iff.mpr hitems).sublist
    (Cluster.members_sublist_of_mem_subtree hcluster)

end Dendrogram

end ModuleRecovery
