import ModuleRecovery.Proofs.Dendrogram.Numbering
import ModuleRecovery.Proofs.Identification.Cache
import ModuleRecovery.Proofs.Identification.Strict

/-!
# Scoring with a shared cache

The cache keeps the coupling of two clusters under their two numbers, in the order
in which the clusters were coupled.  Within one clustering the numbers tell the
clusters, so what is kept is what would be computed, whichever clusters were
scored before.  Since a kept coupling is the very value that was computed, no
property of the arithmetic is needed: the scores agree in every bit.
-/

namespace ModuleRecovery

variable {ι α : Type}

/-! ## Two nested loops -/

theorem orderedPairs_of_sorted {n : Nat} {positions : List (Fin n)}
    (h : positions.Pairwise (· < ·)) :
    orderedPairs positions =
      positions.flatMap fun i => (positions.filter (i < ·)).map (i, ·) := by
  induction positions with
  | nil => rfl
  | cons first rest ih =>
      obtain ⟨hfirst, hrest⟩ := List.pairwise_cons.mp h
      have hbehind : (first :: rest).filter (first < ·) = rest := by
        simpa using hfirst
      have hlater : ∀ i ∈ rest,
          ((first :: rest).filter (i < ·)).map (i, ·) =
            (rest.filter (i < ·)).map (i, ·) := by
        intro i hi
        rw [List.filter_cons_of_neg (by simpa using (hfirst i hi).le)]
      rw [orderedPairs, ih hrest, List.flatMap_cons, hbehind,
        List.flatMap_congr hlater]

theorem orderedPairs_eq_flatMap {β : Type} (list : List β) :
    orderedPairs list =
      (List.finRange list.length).flatMap fun i =>
        ((List.finRange list.length).filter (i < ·)).map fun j =>
          (list.get i, list.get j) := by
  conv_lhs => rw [← List.map_get_finRange list]
  rw [orderedPairs_map, orderedPairs_of_sorted (List.pairwise_lt_finRange _),
    List.map_flatMap]
  simp only [List.map_map]
  rfl

/-- The couplings of the listed clusters, added up in two loops over their
positions: the inner one runs over the positions behind the outer one. -/
def Linkage.loopTotal [Score α] {n : Nat} (linkage : Linkage n α)
    (parts : List (Cluster (Fin n) α)) : α :=
  (List.finRange parts.length).foldl
    (fun total i =>
      ((List.finRange parts.length).filter (i < ·)).foldl
        (fun total j =>
          Score.add total (linkage.between (parts.get i) (parts.get j)))
        total)
    Score.zero

theorem Linkage.loopTotal_eq [Score α] {n : Nat} (linkage : Linkage n α)
    (parts : List (Cluster (Fin n) α)) :
    linkage.loopTotal parts =
      Score.sum ((orderedPairs parts).map fun p =>
        p.1.average linkage.score p.2) := by
  unfold loopTotal Score.sum
  rw [orderedPairs_eq_flatMap, List.map_flatMap, List.foldl_flatMap]
  simp [List.foldl_map, Linkage.between]

theorem Cluster.internalCoupling_eq_loopTotal [Score α] {n : Nat}
    (linkage : Linkage n α) (cluster : Cluster (Fin n) α) :
    cluster.internalCoupling linkage.score =
      if cluster.subtree.length ≤ 1 then Score.zero
      else
        Score.div (linkage.loopTotal cluster.subtree)
          (Score.ofNat
            (cluster.subtree.length * (cluster.subtree.length - 1) / 2)) := by
  rw [Linkage.loopTotal_eq]
  rfl

/-! ## What is kept is what would be computed -/

namespace PairCache

variable [Score α] {scores : ι → ι → α} {clusters : List (Cluster ι α)}

/-- The value is the coupling of any two of the clusters that have the two
numbers. -/
def Couples (scores : ι → ι → α) (clusters : List (Cluster ι α))
    (key : Nat × Nat) (coupling : α) : Prop :=
  ∀ a ∈ clusters, ∀ b ∈ clusters, (a.id, b.id) = key →
    coupling = a.average scores b

theorem couples_average (hnumbers : (clusters.map Cluster.id).Nodup)
    {a b : Cluster ι α} (ha : a ∈ clusters) (hb : b ∈ clusters) :
    Couples scores clusters (a.id, b.id) (a.average scores b) := by
  intro x hx y hy hkey
  obtain ⟨hxa, hyb⟩ := Prod.mk.inj hkey
  rw [List.inj_on_of_nodup_map hnumbers hx ha hxa,
    List.inj_on_of_nodup_map hnumbers hy hb hyb]

variable {cluster : Cluster ι α}

theorem couples_of_mem_orderedPairs
    (hnumbers : (clusters.map Cluster.id).Nodup)
    (hparts : ∀ part ∈ cluster.subtree, part ∈ clusters)
    {p : Cluster ι α × Cluster ι α} (hp : p ∈ orderedPairs cluster.subtree) :
    Couples scores clusters (p.1.id, p.2.id) (p.1.average scores p.2) := by
  obtain ⟨hfirst, hsecond⟩ := mem_of_mem_orderedPairs hp
  exact couples_average hnumbers (hparts _ hfirst) (hparts _ hsecond)

theorem couplings_eq_map {pairs : List (Cluster ι α × Cluster ι α)}
    {couplings : List α} (hpairs : ∀ p ∈ pairs, p.1 ∈ clusters ∧ p.2 ∈ clusters)
    (h : List.Forall₂
      (fun p c => Couples scores clusters (p.1.id, p.2.id) c) pairs couplings) :
    couplings = pairs.map fun p => p.1.average scores p.2 := by
  induction h with
  | nil => rfl
  | cons hcoupling _ ih =>
      obtain ⟨hfirst, hrest⟩ := List.forall_mem_cons.mp hpairs
      rw [List.map_cons, ← ih hrest,
        ← hcoupling _ hfirst.1 _ hfirst.2 rfl]

theorem MeanOf.eq_internalCoupling {score : α}
    (hparts : ∀ part ∈ cluster.subtree, part ∈ clusters)
    (h : MeanOf (Couples scores clusters) cluster score) :
    score = cluster.internalCoupling scores := by
  obtain ⟨couplings, hall, rfl⟩ := h
  have hcouplings := couplings_eq_map (fun p hp => by
    obtain ⟨hfirst, hsecond⟩ := mem_of_mem_orderedPairs hp
    exact ⟨hparts _ hfirst, hparts _ hsecond⟩) hall
  rw [hcouplings]
  rfl

theorem score_empty (hnumbers : (clusters.map Cluster.id).Nodup)
    (hparts : ∀ part ∈ cluster.subtree, part ∈ clusters) :
    ((score scores cluster).run ∅).1 = cluster.internalCoupling scores := by
  have hpairs : ∀ p ∈ orderedPairs cluster.subtree,
      Couples scores clusters (p.1.id, p.2.id) (p.1.average scores p.2) :=
    fun _ hp => couples_of_mem_orderedPairs hnumbers hparts hp
  exact (score_keeps hpairs (keeps_empty _)).1.eq_internalCoupling hparts

theorem scoreAll_eq_map (hnumbers : (clusters.map Cluster.id).Nodup)
    {candidates : List (Cluster ι α)}
    (hparts : ∀ cluster ∈ candidates, ∀ part ∈ cluster.subtree,
      part ∈ clusters) :
    scoreAll scores candidates =
      candidates.map (Cluster.internalCoupling scores) := by
  have hmeans : List.Forall₂ (MeanOf (Couples scores clusters)) candidates
      (scoreAll scores candidates) :=
    scoreAll_meanOf fun cluster hcluster _ hp =>
      couples_of_mem_orderedPairs hnumbers (hparts cluster hcluster) hp
  generalize scoreAll scores candidates = found at hmeans
  induction hmeans with
  | nil => rfl
  | cons hmean _ ih =>
      obtain ⟨hfirst, hrest⟩ := List.forall_mem_cons.mp hparts
      rw [List.map_cons, hmean.eq_internalCoupling hfirst, ih hrest]

end PairCache

/-! ## The scores of a clustering -/

namespace Dendrogram

variable [Score α] {scores : ι → ι → α} {items : List ι}

theorem score_empty {cluster : Cluster ι α}
    (h : cluster ∈ (ofItems scores items).clusters) :
    ((PairCache.score scores cluster).run ∅).1 =
      cluster.internalCoupling scores :=
  PairCache.score_empty (nodup_map_id_clusters scores items)
    fun _ hpart => mem_clusters_of_mem_subtree h hpart

theorem scoreAll_eq_map {candidates : List (Cluster ι α)}
    (h : ∀ cluster ∈ candidates, cluster ∈ (ofItems scores items).clusters) :
    PairCache.scoreAll scores candidates =
      candidates.map (Cluster.internalCoupling scores) :=
  PairCache.scoreAll_eq_map (nodup_map_id_clusters scores items)
    fun cluster hcluster _ hpart =>
      mem_clusters_of_mem_subtree (h cluster hcluster) hpart

end Dendrogram

namespace Clustering

theorem candidates_eq_map [Score α] (coupling : Coupling)
    (names : Array String) :
    (run coupling names : Clustering α).candidates =
      (run coupling names).dendrogram.clusters.map fun cluster =>
        ⟨cluster,
          cluster.internalCoupling (run coupling names).linkage.score⟩ := by
  have hscores : PairCache.scoreAll
      (run coupling names : Clustering α).linkage.score
        (run coupling names).dendrogram.clusters = _ :=
    Dendrogram.scoreAll_eq_map fun _ hcluster => hcluster
  unfold candidates
  dsimp only
  rw [hscores, ← List.map_prod_left_eq_zip, List.map_map]
  rfl

/-- Clusters of a clustering may be scored in any order and repeatedly with one
cache.  Each score is the one that an empty cache gives, and the one that two
nested loops without a cache give; a single class, which has no pair, scores
zero. -/
theorem scoreAll_eq_loops [Score α] (coupling : Coupling)
    (names : Array String) (candidates : List (Cluster (Fin names.size) α))
    (hcandidates : ∀ cluster ∈ candidates,
      cluster ∈ (run coupling names).dendrogram.clusters) :
    let clustering : Clustering α := run coupling names
    let fresh (cluster : Cluster (Fin names.size) α) : α :=
      ((PairCache.score clustering.linkage.score cluster).run ∅).1
    PairCache.scoreAll clustering.linkage.score candidates =
        candidates.map fresh ∧
      (∀ cluster ∈ candidates, fresh cluster =
        if cluster.subtree.length ≤ 1 then Score.zero
        else
          Score.div (clustering.linkage.loopTotal cluster.subtree)
            (Score.ofNat
              (cluster.subtree.length * (cluster.subtree.length - 1) / 2))) ∧
      clustering.candidates = clustering.dendrogram.clusters.map fun cluster =>
        ⟨cluster, fresh cluster⟩ := by
  intro clustering fresh
  have hfresh : ∀ cluster ∈ clustering.dendrogram.clusters,
      fresh cluster = cluster.internalCoupling clustering.linkage.score :=
    fun _ hcluster => Dendrogram.score_empty hcluster
  refine ⟨?_, ?_, ?_⟩
  · apply (Dendrogram.scoreAll_eq_map hcandidates).trans
    apply List.map_congr_left
    intro cluster hcluster
    exact (hfresh cluster (hcandidates cluster hcluster)).symm
  · intro cluster hcluster
    rw [hfresh cluster (hcandidates cluster hcluster)]
    exact cluster.internalCoupling_eq_loopTotal clustering.linkage
  · rw [candidates_eq_map]
    apply List.map_congr_left
    intro cluster hcluster
    rw [hfresh cluster hcluster]

/-- The five clusters of `A`, `B` and `C`, scored from the leaves up and then all
again from the root down with the same cache. -/
theorem scoreAll_eq_loops_three_classes :
    ∃ coupling,
      Coupling.ofCounts? [(.of "A" "B", 6), (.of "A" "C", 2),
        (.of "B" "C", 2)] = some coupling ∧
      let clustering : Clustering Float := run coupling #["A", "B", "C"]
      let tree := clustering.dendrogram.clusters
      (tree.reverse ++ tree).length = 10 ∧
        (∀ cluster ∈ tree.reverse ++ tree, cluster ∈ tree) ∧
        PairCache.scoreAll clustering.linkage.score (tree.reverse ++ tree) =
          (tree.reverse ++ tree).map fun cluster =>
            ((PairCache.score clustering.linkage.score cluster).run ∅).1 := by
  have hcounted : (Coupling.ofCounts? [(.of "A" "B", 6), (.of "A" "C", 2),
      (.of "B" "C", 2)]).isSome = true := by
    decide +kernel
  obtain ⟨coupling, hcoupling⟩ := Option.isSome_iff_exists.mp hcounted
  refine ⟨coupling, hcoupling, ?_⟩
  intro clustering tree
  have hlength : tree.length = 5 := Dendrogram.length_clusters _ _
  have hmem : ∀ cluster ∈ tree.reverse ++ tree, cluster ∈ tree := by
    simp
  refine ⟨by simp [hlength], hmem, ?_⟩
  exact (scoreAll_eq_loops coupling #["A", "B", "C"] (tree.reverse ++ tree)
    hmem).1

end Clustering

end ModuleRecovery
