import ModuleRecovery.Engine
import ModuleRecovery.Proofs.Coupling.Ranked
import ModuleRecovery.Proofs.Identification.SharedCache
import ModuleRecovery.Proofs.Identification.Thresholds

/-!
# The best half

When more candidates reach the threshold than there may be modules, the modules
are the best candidates.  The sort that finds them is stable, so it compares two
candidates by score and then by position: the greater score stands ahead, and of
equal scores the earlier one.  This is a strict order of the positions.  The
modules are listed in it, and what is left out stands behind all of them.

A single class scores zero and every other score is at least that, so at the
threshold zero nothing is lost but what the cap takes, and above it no single
class is a module.
-/

namespace ModuleRecovery

namespace Candidate

variable {ι : Type}

/-- The candidate at the first position has a greater score than the one at the
second, or they have the same score and it comes earlier. -/
def Ahead (candidates : List (Candidate ι Float)) (i j : ℕ) : Prop :=
  ∃ a b, candidates[i]? = some a ∧ candidates[j]? = some b ∧
    (b.internalCoupling < a.internalCoupling ∨
      a.internalCoupling = b.internalCoupling ∧ i < j)

/-- The selected candidates are those at the given positions, each of which is
ahead of the following ones and of all that are not selected. -/
structure BestAt (candidates selected : List (Candidate ι Float))
    (positions : List ℕ) : Prop where
  found : selected.map some = positions.map (candidates[·]?)
  distinct : positions.Nodup
  ordered : positions.Pairwise (Ahead candidates)
  best : ∀ i ∈ positions, ∀ j < candidates.length, j ∉ positions →
    Ahead candidates i j

section Sorting

variable {candidates : List (Candidate ι Float)}

/-- The candidates with their positions, in the order in which they are taken. -/
def placed (candidates : List (Candidate ι Float)) :
    List (Candidate ι Float × ℕ) :=
  candidates.zipIdx.mergeSort fun a b =>
    Score.rank b.1.internalCoupling a.1.internalCoupling

theorem map_fst_placed (candidates : List (Candidate ι Float)) :
    (placed candidates).map Prod.fst =
      candidates.mergeSort fun a b =>
        Score.rank b.internalCoupling a.internalCoupling := by
  have hmap : (placed candidates).map Prod.fst =
      (candidates.zipIdx.map Prod.fst).mergeSort fun a b =>
        Score.rank b.internalCoupling a.internalCoupling :=
    List.map_mergeSort fun _ _ _ _ => rfl
  rw [hmap, List.zipIdx_map_fst]

theorem mem_placed {entry : Candidate ι Float × ℕ} :
    entry ∈ placed candidates ↔ candidates[entry.2]? = some entry.1 := by
  unfold placed
  rw [List.mem_mergeSort, List.mem_zipIdx_iff_getElem?]

theorem nodup_map_snd_placed (candidates : List (Candidate ι Float)) :
    ((placed candidates).map Prod.snd).Nodup := by
  have hperm : ((placed candidates).map Prod.snd).Perm
      (candidates.zipIdx.map Prod.snd) := (List.mergeSort_perm _ _).map _
  rw [hperm.nodup_iff, List.zipIdx_map_snd]
  exact List.nodup_range'

theorem pairwise_placed
    (hmagnitude : ∀ candidate ∈ candidates,
      Double.IsMagnitude candidate.internalCoupling) :
    (placed candidates).Pairwise fun a b => Ahead candidates a.2 b.2 := by
  have htrans : ∀ a b c : Candidate ι Float × ℕ,
      Score.rank b.1.internalCoupling a.1.internalCoupling = true →
      Score.rank c.1.internalCoupling b.1.internalCoupling = true →
        Score.rank c.1.internalCoupling a.1.internalCoupling = true :=
    fun a b c => rank_trans a.1 b.1 c.1
  have hsorted := pairwise_mergeSort_of_pairwise htrans
    (fun a b => Double.rank_total b.1.internalCoupling a.1.internalCoupling)
    (pairwise_zipIdx candidates)
  refine hsorted.imp_of_mem ?_
  intro a b ha hb hab
  have haFound := mem_placed.mp ha
  have hbFound := mem_placed.mp hb
  have haMagnitude := hmagnitude _ (List.mem_of_getElem? haFound)
  have hbMagnitude := hmagnitude _ (List.mem_of_getElem? hbFound)
  refine ⟨a.1, b.1, haFound, hbFound, ?_⟩
  rcases hbMagnitude.lt_or_eq_of_rank haMagnitude hab.1 with hlt | ⟨heq, hback⟩
  · exact .inl hlt
  · exact .inr ⟨heq.symm, hab.2 hback⟩

/-- The first candidates in the order of the sort are the best ones. -/
theorem exists_bestAt
    (hmagnitude : ∀ candidate ∈ candidates,
      Double.IsMagnitude candidate.internalCoupling)
    {cap : ℕ} (hcap : cap < candidates.length) :
    ∃ positions, positions.length = cap ∧
      BestAt candidates (select cap candidates) positions := by
  have hpairwise := pairwise_placed hmagnitude
  rw [← List.take_append_drop cap (placed candidates), List.pairwise_append]
    at hpairwise
  obtain ⟨hkept, -, hacross⟩ := hpairwise
  have hselect : select cap candidates =
      ((placed candidates).take cap).map Prod.fst := by
    rw [select, if_neg (not_le.mpr hcap), List.map_take, map_fst_placed]
  have hlength : (placed candidates).length = candidates.length := by
    simp [placed]
  refine ⟨((placed candidates).take cap).map Prod.snd, ?_, ?_, ?_, ?_, ?_⟩
  · simp [hlength, hcap.le]
  · rw [hselect, List.map_map, List.map_map]
    apply List.map_congr_left
    intro entry hentry
    exact (mem_placed.mp (List.mem_of_mem_take hentry)).symm
  · rw [List.map_take]
    exact (nodup_map_snd_placed candidates).sublist (List.take_sublist _ _)
  · exact List.pairwise_map.mpr hkept
  · intro i hi j hj hleft
    obtain ⟨entry, hentry, rfl⟩ := List.mem_map.mp hi
    have hother : (candidates.get ⟨j, hj⟩, j) ∈ placed candidates := by
      rw [mem_placed]
      exact List.getElem?_eq_getElem hj
    rw [← List.take_append_drop cap (placed candidates), List.mem_append]
      at hother
    rcases hother with hother | hother
    · exact (hleft (List.mem_map_of_mem hother)).elim
    · exact hacross entry hentry _ hother

end Sorting

theorem mem_of_mem_select {cap : ℕ} {candidates : List (Candidate ι Float)}
    {candidate : Candidate ι Float} (h : candidate ∈ select cap candidates) :
    candidate ∈ candidates := by
  unfold select at h
  split at h
  · exact h
  · exact List.mem_mergeSort.mp (List.mem_of_mem_take h)

end Candidate

/-! ## Single classes -/

theorem Cluster.internalCoupling_leaf {ι α : Type} [Score α]
    (scores : ι → ι → α) (id : ℕ) (item : ι) :
    (leaf id item : Cluster ι α).internalCoupling scores = Score.zero := by
  simp [internalCoupling]

theorem Cluster.two_le_length_members {ι α : Type} [Score α]
    {scores : ι → ι → α} {cluster : Cluster ι α}
    (h : cluster.internalCoupling scores ≠ Score.zero) :
    2 ≤ cluster.members.length := by
  cases cluster with
  | leaf id item => exact (h (internalCoupling_leaf scores id item)).elim
  | merge id left right coupling =>
      have hleft := List.length_pos_of_ne_nil left.members_ne_nil
      have hright := List.length_pos_of_ne_nil right.members_ne_nil
      rw [members, List.length_append]
      omega

namespace Threshold

theorem le_of_le_zero {threshold : Threshold Float} {score : Float}
    (hthreshold : threshold.value ≤ 0) (hscore : Double.IsMagnitude score) :
    threshold.value ≤ score := by
  have hzero := Double.isMagnitude_zero.isNumber
  have hlow := (Double.score_le_iff_place_le threshold.isNumber hzero).mp
    (decide_eq_true hthreshold)
  have hhigh := (Double.score_le_iff_place_le hzero hscore.isNumber).mp
    hscore.zero_le
  exact of_decide_eq_true ((Double.score_le_iff_place_le threshold.isNumber
    hscore.isNumber).mpr (hlow.trans hhigh))

theorem not_le_zero {threshold : Threshold Float}
    (hthreshold : 0 < threshold.value) : ¬ threshold.value ≤ 0 := by
  have hzero := Double.isMagnitude_zero.isNumber
  have hlow := (Double.score_lt_iff_place_lt hzero threshold.isNumber).mp
    (decide_eq_true hthreshold)
  intro hle
  have hhigh := (Double.score_le_iff_place_le threshold.isNumber hzero).mp
    (decide_eq_true hle)
  exact absurd hlow (not_lt.mpr hhigh)

end Threshold

/-! ## Modules of a clustering -/

namespace Clustering

/-- All clusters from the root down with their internal couplings, of which those
that reach the threshold are kept. -/
def reaching (clustering : Clustering Float) (threshold : Threshold Float) :
    List (Candidate (Fin clustering.names.size) Float) :=
  ((clustering.dendrogram.root?.toList.flatMap Cluster.preorder).map
    fun cluster =>
      ⟨cluster, cluster.internalCoupling clustering.linkage.score⟩).filter
    fun candidate => decide (threshold.value ≤ candidate.internalCoupling)

theorem clusters_eq_flatMap_preorder {α : Type} (clustering : Clustering α) :
    clustering.dendrogram.clusters =
      clustering.dendrogram.root?.toList.flatMap Cluster.preorder := by
  unfold Dendrogram.clusters
  cases clustering.dendrogram.root? with
  | none => rfl
  | some root => simp [Cluster.subtree_eq_preorder]

theorem filter_candidates_eq_reaching (coupling : Coupling)
    (names : Array String) (threshold : Threshold Float) :
    (run coupling names).candidates.filter (·.reaches threshold) =
      (run coupling names).reaching threshold := by
  rw [candidates_eq_map, clusters_eq_flatMap_preorder]
  rfl

theorem isMagnitude_of_mem_reaching {coupling : Coupling}
    {names : Array String} {threshold : Threshold Float}
    {candidate : Candidate (Fin names.size) Float}
    (h : candidate ∈ (run coupling names).reaching threshold) :
    Double.IsMagnitude candidate.internalCoupling := by
  rw [← filter_candidates_eq_reaching] at h
  exact isMagnitude_of_mem_candidates (List.mem_of_mem_filter h)

theorem length_reaching_of_le_zero (coupling : Coupling)
    (names : Array String) {threshold : Threshold Float}
    (hthreshold : threshold.value ≤ 0) :
    ((run coupling names).reaching threshold).length =
      2 * names.size - 1 := by
  have hall : (run coupling names).candidates.filter (·.reaches threshold) =
      (run coupling names).candidates := by
    apply List.filter_eq_self.mpr
    intro candidate hcandidate
    exact decide_eq_true (threshold.le_of_le_zero hthreshold
      (isMagnitude_of_mem_candidates hcandidate))
  have hclusters : (run coupling names :
      Clustering Float).dendrogram.clusters.length = 2 * names.size - 1 := by
    apply (Dendrogram.length_clusters _ _).trans
    exact congrArg (2 * · - 1) List.length_finRange
  rw [← filter_candidates_eq_reaching, hall, candidates_eq_map,
    List.length_map, hclusters]

/-- The modules are the clusters that reach the threshold, from the root down, if
these are at most half as many as the classes, and else the best half. -/
theorem identify_best_half (coupling : Coupling) (names : Array String)
    (threshold : Threshold Float) :
    let clustering : Clustering Float := run coupling names
    let reaching := clustering.reaching threshold
    let modules := clustering.identify threshold
    (reaching.length ≤ names.size / 2 → modules = reaching) ∧
      (names.size / 2 < reaching.length → ∃ positions,
        positions.length = names.size / 2 ∧
          Candidate.BestAt reaching modules positions) ∧
      (Engine.modulesReport clustering threshold).modules =
        modules.map (fun found =>
          ⟨found.cluster.members.map names.toVector.get,
            found.internalCoupling⟩) ∧
      (threshold.value ≤ 0 → modules.length = names.size / 2) ∧
      (0 < threshold.value → ∀ found ∈ modules,
        2 ≤ (clustering.classNames found.cluster).length) := by
  intro clustering reaching modules
  have hmodules : modules = Candidate.select (names.size / 2) reaching :=
    congrArg (Candidate.select _)
      (filter_candidates_eq_reaching coupling names threshold)
  refine ⟨?_, ?_, rfl, ?_, ?_⟩
  · intro hfew
    rw [hmodules, Candidate.select, if_pos hfew]
  · intro hmany
    rw [hmodules]
    exact Candidate.exists_bestAt
      (fun _ hmem => isMagnitude_of_mem_reaching hmem) hmany
  · intro hzero
    have hlength : reaching.length = 2 * names.size - 1 :=
      length_reaching_of_le_zero coupling names hzero
    rw [hmodules, Candidate.length_select, hlength]
    omega
  · intro hpositive found hfound
    rw [hmodules] at hfound
    obtain ⟨hcandidate, hreached⟩ :=
      List.mem_filter.mp (Candidate.mem_of_mem_select hfound)
    obtain ⟨cluster, -, rfl⟩ := List.mem_map.mp hcandidate
    rw [classNames, List.length_map]
    apply Cluster.two_le_length_members
    intro hscore
    rw [hscore] at hreached
    exact Threshold.not_le_zero hpositive (of_decide_eq_true hreached)

end Clustering

end ModuleRecovery
