import ModuleRecovery.Identification
import ModuleRecovery.Proofs.Dendrogram.Greedy

/-!
# Scores from kept couplings

When several clusters are scored with one cache, a coupling may come from the
cache instead of being computed.  Whatever holds of the coupling of every pair
when it is computed holds of every coupling that is kept and of every coupling
that is used.  So each score is a mean of couplings with that property, whatever
was scored before.
-/

namespace ModuleRecovery

variable {ι α : Type}

namespace PairCache

/-- Everything that is kept has the property, which may refer to the numbers of the
two clusters. -/
def Keeps (P : Nat × Nat → α → Prop) (cache : PairCache α) : Prop :=
  ∀ (key : Nat × Nat) (coupling : α),
    cache[key]? = some coupling → P key coupling

variable {P : Nat × Nat → α → Prop}

theorem keeps_empty (P : Nat × Nat → α → Prop) : Keeps P ∅ := by
  intro key coupling h
  simp at h

theorem Keeps.insert {cache : PairCache α} (h : cache.Keeps P)
    {key : Nat × Nat} {coupling : α} (hkey : P key coupling) :
    Keeps P (cache.insert key coupling) := by
  intro other value hvalue
  rw [Std.HashMap.getElem?_insert] at hvalue
  split at hvalue
  · rename_i heq
    obtain rfl : key = other := by simpa using heq
    cases hvalue
    exact hkey
  · exact h other value hvalue

section Runs

variable [Score α] {scores : ι → ι → α} {cache : PairCache α}

theorem pair_keeps {a b : Cluster ι α} (h : cache.Keeps P)
    (hpair : P (a.id, b.id) (a.average scores b)) :
    P (a.id, b.id) ((pair scores a b).run cache).1 ∧
      Keeps P ((pair scores a b).run cache).2 := by
  cases hkept : cache[(a.id, b.id)]? with
  | some coupling =>
      have hrun : (pair scores a b).run cache = (coupling, cache) := by
        simp only [pair, bind_pure_comp, StateT.run_bind, StateT.run_get,
          pure_bind, hkept, StateT.run_pure]
        rfl
      rw [hrun]
      exact ⟨h _ _ hkept, h⟩
  | none =>
      have hrun : (pair scores a b).run cache =
          (a.average scores b,
            cache.insert (a.id, b.id) (a.average scores b)) := by
        simp only [pair, bind_pure_comp, StateT.run_bind, StateT.run_get,
          pure_bind, hkept, StateT.run_map, StateT.run_modify, map_pure]
        rfl
      rw [hrun]
      exact ⟨hpair, h.insert hpair⟩

/-- One step of adding up the couplings of pairs. -/
def addPair (scores : ι → ι → α) (total : α) (p : Cluster ι α × Cluster ι α) :
    StateM (PairCache α) α :=
  return Score.add total (← pair scores p.1 p.2)

theorem run_addPair (total : α) (p : Cluster ι α × Cluster ι α) :
    (addPair scores total p).run cache =
      (Score.add total ((pair scores p.1 p.2).run cache).1,
        ((pair scores p.1 p.2).run cache).2) :=
  rfl

theorem foldlM_addPair_keeps {pairs : List (Cluster ι α × Cluster ι α)}
    (hpairs : ∀ p ∈ pairs, P (p.1.id, p.2.id) (p.1.average scores p.2))
    (start : α) (h : cache.Keeps P) :
    ∃ couplings,
      List.Forall₂ (fun p c => P (p.1.id, p.2.id) c) pairs couplings ∧
      ((pairs.foldlM (addPair scores) start).run cache).1 =
        couplings.foldl Score.add start ∧
      Keeps P ((pairs.foldlM (addPair scores) start).run cache).2 := by
  induction pairs generalizing start cache with
  | nil => exact ⟨[], .nil, rfl, h⟩
  | cons p pairs ih =>
      obtain ⟨hcoupling, hkeeps⟩ := pair_keeps h (hpairs p List.mem_cons_self)
      obtain ⟨couplings, hall, hsum, hrest⟩ := ih
        (fun q hq => hpairs q (List.mem_cons_of_mem _ hq))
        (Score.add start ((pair scores p.1 p.2).run cache).1) hkeeps
      refine ⟨((pair scores p.1 p.2).run cache).1 :: couplings,
        .cons hcoupling hall, ?_, ?_⟩
      · rw [List.foldlM_cons, StateT.run_bind, run_addPair]
        exact hsum
      · rw [List.foldlM_cons, StateT.run_bind, run_addPair]
        exact hrest

/-- The score is the mean of couplings with the property, one for each pair of
clusters in the subtree; a single item scores zero. -/
def MeanOf (P : Nat × Nat → α → Prop) (cluster : Cluster ι α) (score : α) :
    Prop :=
  ∃ couplings,
    List.Forall₂ (fun p c => P (p.1.id, p.2.id) c)
      (orderedPairs cluster.subtree) couplings ∧
    score = if cluster.subtree.length ≤ 1 then Score.zero
      else Score.mean couplings (Cluster.pairTotal cluster.subtree.length)

theorem score_keeps {cluster : Cluster ι α}
    (hpairs : ∀ p ∈ orderedPairs cluster.subtree,
      P (p.1.id, p.2.id) (p.1.average scores p.2)) (h : cache.Keeps P) :
    MeanOf P cluster ((score scores cluster).run cache).1 ∧
      Keeps P ((score scores cluster).run cache).2 := by
  obtain ⟨couplings, hall, hsum, hrest⟩ :=
    foldlM_addPair_keeps hpairs Score.zero h
  unfold score
  dsimp only
  by_cases hsingle : cluster.subtree.length ≤ 1
  · rw [if_pos hsingle]
    exact ⟨⟨couplings, hall, (if_pos hsingle).symm⟩, h⟩
  · rw [if_neg hsingle]
    have hmean := congrArg
      (Score.div · (Score.ofNat (Cluster.pairTotal cluster.subtree.length)))
      hsum
    exact ⟨⟨couplings, hall, hmean.trans (if_neg hsingle).symm⟩, hrest⟩

theorem mapM_score_keeps {clusters : List (Cluster ι α)}
    (hpairs : ∀ cluster ∈ clusters, ∀ p ∈ orderedPairs cluster.subtree,
      P (p.1.id, p.2.id) (p.1.average scores p.2)) (h : cache.Keeps P) :
    List.Forall₂ (MeanOf P) clusters
      ((clusters.mapM (score scores)).run cache).1 := by
  induction clusters generalizing cache with
  | nil => exact .nil
  | cons cluster clusters ih =>
      obtain ⟨hmean, hkeeps⟩ :=
        score_keeps (hpairs cluster List.mem_cons_self) h
      have hrest := ih (fun other hother =>
        hpairs other (List.mem_cons_of_mem _ hother)) hkeeps
      rw [List.mapM_cons]
      exact .cons hmean hrest

theorem scoreAll_meanOf {clusters : List (Cluster ι α)}
    (hpairs : ∀ cluster ∈ clusters, ∀ p ∈ orderedPairs cluster.subtree,
      P (p.1.id, p.2.id) (p.1.average scores p.2)) :
    List.Forall₂ (MeanOf P) clusters (scoreAll scores clusters) :=
  mapM_score_keeps hpairs (keeps_empty P)

end Runs

end PairCache

/-! ## Magnitudes -/

theorem Cluster.pairTotal_pos {n : Nat} (hn : ¬ n ≤ 1) : 0 < pairTotal n := by
  unfold pairTotal
  apply Nat.div_pos _ Nat.two_pos
  obtain ⟨m, rfl⟩ : ∃ m, n = m + 2 := ⟨n - 2, by omega⟩
  have hfirst : 2 ≤ m + 2 := by omega
  have hsecond : 1 ≤ m + 2 - 1 := by omega
  exact Nat.mul_le_mul hfirst hsecond

theorem PairCache.MeanOf.isMagnitude {cluster : Cluster ι Float} {score : Float}
    (h : MeanOf (fun _ => Double.IsMagnitude) cluster score) :
    Double.IsMagnitude score := by
  obtain ⟨couplings, hall, rfl⟩ := h
  have hcouplings : ∀ coupling ∈ couplings, Double.IsMagnitude coupling := by
    generalize orderedPairs cluster.subtree = pairs at hall
    induction hall with
    | nil => simp
    | cons hcoupling _ ih => exact List.forall_mem_cons.mpr ⟨hcoupling, ih⟩
  split
  · exact Double.isMagnitude_zero
  · rename_i hmany
    exact Double.isMagnitude_mean hcouplings (Cluster.pairTotal_pos hmany)

/-- The internal couplings of the candidates of a run are magnitudes. -/
theorem Clustering.isMagnitude_of_mem_candidates {coupling : Coupling}
    {names : Array String}
    {candidate : Candidate (Fin names.size) Float}
    (h : candidate ∈ (Clustering.run coupling names).candidates) :
    Double.IsMagnitude candidate.internalCoupling := by
  obtain ⟨⟨cluster, score⟩, hscored, rfl⟩ := List.mem_map.mp h
  have hmeans : List.Forall₂ (PairCache.MeanOf fun _ => Double.IsMagnitude)
      (Clustering.run coupling names).dendrogram.clusters
      (PairCache.scoreAll (Linkage.ofCoupling coupling names).score
        (Clustering.run coupling names).dendrogram.clusters) :=
    PairCache.scoreAll_meanOf fun _ _ p _ => Cluster.isMagnitude_average
      (Linkage.isMagnitude_score coupling names) p.1 p.2
  exact (List.forall₂_zip hmeans hscored).isMagnitude

end ModuleRecovery
