import ModuleRecovery.Proofs.Identification.Selection

/-!
# Modules overlap in no part

The two parts of a merge share no item.  So two clusters of one tree either share
nothing or one of them lies below the other, and then it lacks an item that the
other has.  A module is a cluster of the dendrogram, and no cluster is returned
twice, since the modules are a selection from the walk of the tree and the
numbers met on the walk are distinct.  When the names are distinct too, what
holds of the items holds of the names.
-/

namespace ModuleRecovery

variable {ι α : Type}

/-! ## Clusters of one tree -/

namespace Cluster

def memberSet (cluster : Cluster ι α) : Set ι :=
  {item | item ∈ cluster.members}

theorem memberSet_nonempty (cluster : Cluster ι α) :
    cluster.memberSet.Nonempty :=
  List.exists_mem_of_ne_nil _ cluster.members_ne_nil

theorem disjoint_or_mem_subtree {root a b : Cluster ι α}
    (hroot : root.members.Nodup) (ha : a ∈ root.subtree)
    (hb : b ∈ root.subtree) :
    Disjoint a.memberSet b.memberSet ∨ a ∈ b.subtree ∨ b ∈ a.subtree := by
  induction root with
  | leaf id item =>
      rw [subtree_leaf, List.mem_singleton] at ha hb
      rw [ha, hb]
      exact .inr (.inl (mem_subtree_self _))
  | merge id left right coupling ihLeft ihRight =>
      obtain ⟨hleft, hright, hapart⟩ := List.nodup_append'.mp hroot
      have hacross : ∀ {x y : Cluster ι α}, x ∈ left.subtree →
          y ∈ right.subtree → Disjoint x.memberSet y.memberSet := by
        intro x y hx hy
        rw [Set.disjoint_left]
        intro item hitem hother
        exact hapart ((members_sublist_of_mem_subtree hx).subset hitem)
          ((members_sublist_of_mem_subtree hy).subset hother)
      -- the whole tree holds both; below it, both lie in one part or apart
      by_cases haRoot : a = merge id left right coupling
      · rw [haRoot]
        exact .inr (.inr hb)
      by_cases hbRoot : b = merge id left right coupling
      · rw [hbRoot]
        exact .inr (.inl ha)
      rw [subtree_merge, List.mem_cons, List.mem_append] at ha hb
      rcases ha.resolve_left haRoot with ha | ha <;>
        rcases hb.resolve_left hbRoot with hb | hb
      · exact ihLeft hleft ha hb
      · exact .inl (hacross ha hb)
      · exact .inl (hacross hb ha).symm
      · exact ihRight hright ha hb

/-- A cluster below another one lacks the items of some part of it. -/
theorem memberSet_ssubset_of_mem_subtree {part cluster : Cluster ι α}
    (hcluster : cluster.members.Nodup) (hpart : part ∈ cluster.subtree)
    (hne : part ≠ cluster) : part.memberSet ⊂ cluster.memberSet := by
  refine ⟨(members_sublist_of_mem_subtree hpart).subset, ?_⟩
  cases cluster with
  | leaf id item =>
      rw [subtree_leaf, List.mem_singleton] at hpart
      exact (hne hpart).elim
  | merge id left right coupling =>
      have hapart := (List.nodup_append'.mp hcluster).2.2
      rw [subtree_merge, List.mem_cons, List.mem_append] at hpart
      intro hall
      rcases hpart.resolve_left hne with hpart | hpart
      · obtain ⟨item, hitem⟩ := right.memberSet_nonempty
        have hback := hall (List.mem_append_right _ hitem)
        exact hapart ((members_sublist_of_mem_subtree hpart).subset hback)
          hitem
      · obtain ⟨item, hitem⟩ := left.memberSet_nonempty
        have hback := hall (List.mem_append_left _ hitem)
        exact hapart hitem
          ((members_sublist_of_mem_subtree hpart).subset hback)

end Cluster

/-- Two sets are different, and if they share anything then one is part of the
other. -/
structure Nests {β : Type} (a b : Set β) : Prop where
  differ : a ≠ b
  nested : Disjoint a b ∨ a ⊂ b ∨ b ⊂ a

theorem Nests.image {β γ : Type} {a b : Set β} (h : Nests a b) {f : β → γ}
    (hf : Function.Injective f) : Nests (f '' a) (f '' b) := by
  constructor
  · exact hf.image_injective.ne h.differ
  · rcases h.nested with hdisjoint | hlt | hlt
    · exact .inl ((Set.disjoint_image_iff hf).mpr hdisjoint)
    · exact .inr (.inl (hf.image_strictMono hlt))
    · exact .inr (.inr (hf.image_strictMono hlt))

theorem Dendrogram.nests_of_mem_clusters [Score α] {scores : ι → ι → α}
    {items : List ι} (hitems : items.Nodup) {a b : Cluster ι α}
    (ha : a ∈ (ofItems scores items).clusters)
    (hb : b ∈ (ofItems scores items).clusters) (hne : a ≠ b) :
    Nests a.memberSet b.memberSet := by
  have haNodup := nodup_members_of_mem_clusters hitems ha
  have hbNodup := nodup_members_of_mem_clusters hitems hb
  obtain ⟨root, hclusters, -⟩ := exists_clusters_eq_of_mem ha
  have hroot : root ∈ (ofItems scores items).clusters := by
    rw [hclusters]
    exact root.mem_subtree_self
  have hrootNodup := nodup_members_of_mem_clusters hitems hroot
  rw [hclusters] at ha hb
  rcases Cluster.disjoint_or_mem_subtree hrootNodup ha hb with
    hdisjoint | hbelow | hbelow
  · exact ⟨hdisjoint.ne a.memberSet_nonempty.ne_empty, .inl hdisjoint⟩
  · have hlt := Cluster.memberSet_ssubset_of_mem_subtree hbNodup hbelow hne
    exact ⟨hlt.ne, .inr (.inl hlt)⟩
  · have hlt :=
      Cluster.memberSet_ssubset_of_mem_subtree haNodup hbelow hne.symm
    exact ⟨hlt.ne', .inr (.inr hlt)⟩

/-! ## Modules -/

theorem Candidate.select_subperm [Score α] (cap : ℕ)
    (candidates : List (Candidate ι α)) :
    (select cap candidates).Subperm candidates := by
  unfold select
  split
  · exact List.Subperm.refl _
  · exact (List.take_sublist _ _).subperm.trans
      (List.mergeSort_perm _ _).subperm

theorem get_injective_of_nodup {β : Type} {array : Array β}
    (h : array.toList.Nodup) : Function.Injective array.toVector.get := by
  intro i j hij
  exact Fin.ext (h.getElem_inj_iff.mp hij)

namespace Clustering

theorem setOf_mem_classNames (clustering : Clustering α)
    (cluster : Cluster (Fin clustering.names.size) α) :
    {name | name ∈ clustering.classNames cluster} =
      clustering.names.toVector.get '' cluster.memberSet := by
  ext name
  exact List.mem_map

variable [Score α]

theorem identify_subperm (clustering : Clustering α)
    (threshold : Threshold α) :
    (clustering.identify threshold).Subperm clustering.candidates :=
  (Candidate.select_subperm _ _).trans List.filter_sublist.subperm

theorem mem_clusters_of_mem_identify {coupling : Coupling}
    {names : Array String} {threshold : Threshold α}
    {found : Candidate (Fin names.size) α}
    (h : found ∈ (run coupling names).identify threshold) :
    found.cluster ∈ (run coupling names : Clustering α).dendrogram.clusters := by
  have hcandidate := (identify_subperm _ threshold).subset h
  rw [candidates_eq_map] at hcandidate
  obtain ⟨cluster, hcluster, rfl⟩ := List.mem_map.mp hcandidate
  exact hcluster

theorem nodup_map_id_identify (coupling : Coupling) (names : Array String)
    (threshold : Threshold α) :
    (((run coupling names).identify threshold).map
      fun found => found.cluster.id).Nodup := by
  apply nodup_map_of_subperm (identify_subperm _ threshold)
  rw [candidates_eq_map, List.map_map]
  exact Dendrogram.nodup_map_id_clusters _ _

/-- With distinct names the modules are pairwise different sets of classes, of
which two are disjoint unless one is part of the other, and none of them lists a
class twice. -/
theorem identify_laminar (coupling : Coupling) (names : Array String)
    (hnames : names.toList.Nodup) (threshold : Threshold α) :
    let clustering : Clustering α := run coupling names
    let modules := (clustering.identify threshold).map fun found =>
      clustering.classNames found.cluster
    (∀ classes ∈ modules, classes.Nodup) ∧
      ∀ (i j : ℕ) a b, i ≠ j → modules[i]? = some a → modules[j]? = some b →
        Nests {name | name ∈ a} {name | name ∈ b} := by
  intro clustering modules
  have hinjective := get_injective_of_nodup hnames
  constructor
  · intro classes hclasses
    obtain ⟨found, hfound, rfl⟩ := List.mem_map.mp hclasses
    exact (Dendrogram.nodup_members_of_mem_clusters (List.nodup_finRange _)
      (mem_clusters_of_mem_identify hfound)).map hinjective
  · intro i j a b hij ha hb
    rw [List.getElem?_map, Option.map_eq_some_iff] at ha hb
    obtain ⟨first, hfirst, rfl⟩ := ha
    obtain ⟨second, hsecond, rfl⟩ := hb
    have hne : first.cluster ≠ second.cluster := by
      intro heq
      have hnumbers : ((clustering.identify threshold).map
          fun found => found.cluster.id).Nodup :=
        nodup_map_id_identify coupling names threshold
      have hbound := (List.getElem?_eq_some_iff.mp hfirst).1
      apply hij
      apply (List.getElem?_inj (by simpa using hbound) hnumbers).mp
      rw [List.getElem?_map, List.getElem?_map, hfirst, hsecond,
        Option.map_some, Option.map_some, heq]
    rw [setOf_mem_classNames, setOf_mem_classNames]
    exact (Dendrogram.nests_of_mem_clusters (List.nodup_finRange _)
      (mem_clusters_of_mem_identify (List.mem_of_getElem? hfirst))
      (mem_clusters_of_mem_identify (List.mem_of_getElem? hsecond))
      hne).image hinjective

/-- Three calls join `A` and `B`, one joins `B` and `C`, and `D` has none: the
modules are `A`, `B` and `C` together, and `A` and `B` within them. -/
theorem identify_laminar_four_classes :
    let names := #["A", "B", "C", "D"]
    let threshold : Threshold Float := ⟨0.2, by decide +kernel⟩
    names.toList.Nodup ∧
      ∃ coupling, Coupling.ofCounts? [(.of "A" "B", 3), (.of "B" "C", 1)] =
          some coupling ∧
        ((run coupling names).identify threshold).map (fun found =>
          (run coupling names).classNames found.cluster) =
            [["C", "A", "B"], ["A", "B"]] ∧
        Nests {name | name ∈ ["C", "A", "B"]} {name | name ∈ ["A", "B"]} := by
  intro names threshold
  have hreaching : (Coupling.ofCounts?
      [(.of "A" "B", 3), (.of "B" "C", 1)]).any (fun coupling =>
        ((run coupling names).reaching threshold).map (fun found =>
          (run coupling names).classNames found.cluster) ==
            [["C", "A", "B"], ["A", "B"]]) = true := by
    decide +kernel
  obtain ⟨coupling, hcoupling, hreaching⟩ :=
    (Option.any_eq_true _ _).mp hreaching
  have hreaching := beq_iff_eq.mp hreaching
  have hfew : ((run coupling names).reaching threshold).length ≤
      names.size / 2 := by
    have hlength := congrArg List.length hreaching
    rw [List.length_map] at hlength
    rw [hlength]
    decide
  have hmodules : (run coupling names).identify threshold =
      (run coupling names).reaching threshold := by
    rw [← filter_candidates_eq_reaching] at hfew ⊢
    exact identify_of_length_le hfew
  rw [← hmodules] at hreaching
  have hnames : names.toList.Nodup := by decide
  have hnests := (identify_laminar coupling names hnames threshold).2
  rw [hreaching] at hnests
  exact ⟨hnames, coupling, hcoupling, hreaching,
    hnests 0 1 _ _ (by decide) rfl rfl⟩

end Clustering

end ModuleRecovery
