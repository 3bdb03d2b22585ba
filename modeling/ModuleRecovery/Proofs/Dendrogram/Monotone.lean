import ModuleRecovery.Proofs.Dendrogram.Greedy
import ModuleRecovery.Proofs.Score.Rational

/-!
# Falling couplings

Without rounding, clustering never merges more strongly than it did before.  The
pair that a step merges is a strongest one, so its coupling bounds all pairs of
the level.  The bound survives the step: a pair that was not touched keeps its
coupling, and the coupling to the new cluster is a mean of two couplings of the
level before.  So every coupling recorded on the way bounds all later pairs, and
no merge is stronger than the merges inside it.
-/

namespace ModuleRecovery

variable {ι : Type}

/-- No two clusters of the level are coupled more strongly than the bound. -/
def Level.CouplingsAtMost (scores : ι → ι → ℚ) (bound : ℚ)
    (level : Level ι ℚ) : Prop :=
  level.Pairwise fun a b => a.average scores b ≤ bound

namespace Level

variable {scores : ι → ι → ℚ} {level next : Level ι ℚ}
  {choice : Choice ι ℚ} {bound : ℚ}

theorem CouplingsAtMost.mono (h : level.CouplingsAtMost scores bound)
    {larger : ℚ} (hle : bound ≤ larger) :
    level.CouplingsAtMost scores larger :=
  h.imp fun hab => hab.trans hle

theorem CouplingsAtMost.average_le (h : level.CouplingsAtMost scores bound)
    (hfits : choice.FitsLevel level) :
    choice.left.average scores choice.right ≤ bound := by
  obtain ⟨hi, hleft⟩ := List.getElem?_eq_some_iff.mp hfits.left
  obtain ⟨hj, hright⟩ := List.getElem?_eq_some_iff.mp hfits.right
  rw [← hleft, ← hright]
  exact List.pairwise_iff_getElem.mp h _ _ hi hj hfits.ordered

theorem couplingsAtMost_of_strongest?
    (hchoice : level.strongest? scores = some choice) :
    level.CouplingsAtMost scores choice.coupling := by
  have hfirst := firstStrongest_of_strongest? Score.weakOrder_rat
    (fun _ _ => trivial) hchoice
  refine List.pairwise_iff_getElem.mpr ?_
  intro i j hi hj hij
  have hnot := hfirst.greatest i j _ _ hij
    (List.getElem?_eq_getElem hi) (List.getElem?_eq_getElem hj)
  rw [Score.lt_rat_iff, not_lt] at hnot
  exact hnot

/-- Merging two clusters of a level makes no coupling stronger than all that were
there before. -/
theorem CouplingsAtMost.merge (hscores : ∀ x y, scores x y = scores y x)
    (h : level.CouplingsAtMost scores bound)
    (hfits : choice.FitsLevel level) (id : ℕ) :
    CouplingsAtMost scores bound (choice.others level ++
      [.merge id choice.left choice.right choice.coupling]) := by
  refine hfits.pairwise_merge ?_ ?_ h
  · intro a b hab
    rwa [Cluster.average_comm hscores]
  · intro a hleft hright
    exact Cluster.average_merge_right_le hleft hright _ _

/-- The coupling of every merge in the level bounds the couplings of the level,
and no part of such a merge has a smaller coupling than the merge. -/
structure Descends (scores : ι → ι → ℚ) (level : Level ι ℚ) : Prop where
  bounded : ∀ cluster ∈ level, ∀ own, cluster.coupling? = some own →
    level.CouplingsAtMost scores own
  parts : ∀ id left right own, .merge id left right own ∈ level →
    ∀ part ∈ [left, right], ∀ inner, part.coupling? = some inner → own ≤ inner

theorem descends_ofItems (scores : ι → ι → ℚ) (items : List ι) :
    Descends scores (Level.ofItems items) := by
  have hleaf : ∀ cluster ∈ (Level.ofItems items : Level ι ℚ),
      ∃ id item, cluster = .leaf id item := by
    intro cluster hmem
    obtain ⟨⟨item, id⟩, -, rfl⟩ := List.mem_map.mp hmem
    exact ⟨id, item, rfl⟩
  constructor
  · intro cluster hmem own hown
    obtain ⟨id, item, rfl⟩ := hleaf cluster hmem
    cases hown
  · intro id left right own hmem
    obtain ⟨_, _, heq⟩ := hleaf _ hmem
    cases heq

theorem Descends.step (hscores : ∀ x y, scores x y = scores y x)
    (h : level.Descends scores) {id : ℕ}
    (hstep : level.step? scores id = some next) : next.Descends scores := by
  obtain ⟨choice, hchoice, hfits, hcoupling, rfl⟩ := step?_cases hstep
  have hnext := (couplingsAtMost_of_strongest? hchoice).merge hscores hfits id
  have hparent : ∀ cluster ∈ level, ∀ own, cluster.coupling? = some own →
      choice.coupling ≤ own := by
    intro cluster hmem own hown
    rw [hcoupling]
    exact (h.bounded cluster hmem own hown).average_le hfits
  constructor
  · intro cluster hmem own hown
    rcases List.mem_append.mp hmem with hold | hnew
    · exact hnext.mono
        (hparent cluster (hfits.mem_of_mem_others hold) own hown)
    · obtain rfl := List.mem_singleton.mp hnew
      cases hown
      exact hnext
  · intro _ left right own hmem part hpart inner hinner
    rcases List.mem_append.mp hmem with hold | hnew
    · exact h.parts _ _ _ _ (hfits.mem_of_mem_others hold) part hpart
        inner hinner
    · cases List.mem_singleton.mp hnew
      refine hparent part ?_ inner hinner
      rcases List.mem_cons.mp hpart with rfl | hpart
      · exact List.mem_of_getElem? hfits.left
      · rw [List.mem_singleton.mp hpart]
        exact List.mem_of_getElem? hfits.right

end Level

namespace Dendrogram

variable {scores : ι → ι → ℚ} {items : List ι}

theorem descends_of_getElem?_levels
    (hscores : ∀ x y, scores x y = scores y x) {k : ℕ} {level : Level ι ℚ}
    (hlevel : (ofItems scores items).levels[k]? = some level) :
    level.Descends scores :=
  levels_induction (P := fun _ level => level.Descends scores)
    (Level.descends_ofItems scores items)
    (fun _ _ _ h hstep => h.step hscores hstep) hlevel

theorem couplings_fall_succ (hscores : ∀ x y, scores x y = scores y x)
    {k : ℕ} {step following : Merge ι ℚ}
    (hstep : (ofItems scores items).merges[k]? = some step)
    (hfollowing : (ofItems scores items).merges[k + 1]? = some following) :
    following.coupling ≤ step.coupling := by
  obtain ⟨_, middle, _, -, hmiddle, -, -, hjoins⟩ :=
    exists_levels_of_getElem?_merges hstep
  obtain ⟨level, _, choice, hlevel, -, hchoice, hcoupling, -⟩ :=
    exists_levels_of_getElem?_merges hfollowing
  cases hlevel.symm.trans hmiddle
  -- the merge made last is in the middle level, and its coupling bounds that level
  have hmerged : step.merged ∈ middle := by
    rw [hjoins.next]
    simp
  have hbounded := (descends_of_getElem?_levels hscores hmiddle).bounded
    step.merged hmerged _ hjoins.coupling
  rw [hcoupling,
    Level.coupling_of_mem_choices (Level.mem_choices_of_strongest? hchoice)]
  exact hbounded.average_le (Level.fitsLevel_of_strongest? hchoice)

theorem couplings_fall (hscores : ∀ x y, scores x y = scores y x) :
    ((ofItems scores items).merges.map Merge.coupling).Pairwise (· ≥ ·) := by
  rw [← List.isChain_iff_pairwise, List.isChain_iff_getElem]
  intro k hk
  rw [List.length_map] at hk
  rw [List.getElem_map, List.getElem_map]
  exact couplings_fall_succ hscores
    (List.getElem?_eq_getElem (by omega)) (List.getElem?_eq_getElem hk)

end Dendrogram

theorem Linkage.score_comm {α : Type} [Score α] (coupling : Coupling)
    (names : Array String) (i j : Fin names.size) :
    (Linkage.ofCoupling coupling names : Linkage names.size α).score i j =
      (Linkage.ofCoupling coupling names).score j i := by
  rw [score_ofCoupling, score_ofCoupling, Coupling.between_comm]

/-- Over the rationals the couplings of the steps of a run fall, and no merge of any
level has a greater coupling than the merges that are its parts. -/
theorem Clustering.run_couplings_fall (coupling : Coupling)
    (names : Array String) :
    let dendrogram := (Clustering.run coupling names : Clustering ℚ).dendrogram
    (dendrogram.merges.map Merge.coupling).Pairwise (· ≥ ·) ∧
      ∀ level ∈ dendrogram.levels, ∀ id left right own,
        .merge id left right own ∈ level → ∀ part ∈ [left, right],
          ∀ inner, part.coupling? = some inner → own ≤ inner := by
  intro dendrogram
  have hscores := Linkage.score_comm (α := ℚ) coupling names
  refine ⟨Dendrogram.couplings_fall hscores, ?_⟩
  intro level hmem
  obtain ⟨k, hlevel⟩ := List.mem_iff_getElem?.mp hmem
  exact (Dendrogram.descends_of_getElem?_levels hscores hlevel).parts

/-- `A` and `B` are merged first; the merge of `C` with them is weaker, and weaker
than the merge that is its part. -/
example :
    (Coupling.ofCounts? [(.of "A" "B", 6), (.of "A" "C", 2),
      (.of "B" "C", 2)]).map (fun coupling =>
        (Clustering.run coupling #["A", "B", "C"] :
          Clustering ℚ).dendrogram.merges.map fun step =>
            (step.coupling, step.left.coupling?, step.right.coupling?)) =
      some [(3 / 5, none, none), (1 / 5, none, some (3 / 5))] := by
  decide +kernel

end ModuleRecovery
