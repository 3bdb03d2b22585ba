import ModuleRecovery.Proofs.Dendrogram.Partition
import ModuleRecovery.Proofs.Lists
import ModuleRecovery.Proofs.Score.Magnitude

/-!
# The greedy choice

The search for the next merge keeps one choice and gives it up only for a
strictly stronger one.  Where the comparison is a strict weak order, the choice
that is left is as strong as any and stronger than all that were looked at before
it.  The choices are looked at in the lexicographic order of their positions, so
each step merges the first of the strongest pairs.  On doubles the comparison is
such an order for all couplings that a run meets.
-/

namespace ModuleRecovery

variable {ι α : Type}

/-! ## The order of the choices -/

theorem pairwise_orderedPairs {β : Type} {R : β → β → Prop} {list : List β}
    (h : list.Pairwise R) :
    (orderedPairs list).Pairwise fun p q =>
      R p.1 q.1 ∨ p.1 = q.1 ∧ R p.2 q.2 := by
  induction list with
  | nil => exact List.Pairwise.nil
  | cons first rest ih =>
      obtain ⟨hfirst, hrest⟩ := List.pairwise_cons.mp h
      refine List.pairwise_append.mpr ⟨?_, ih hrest, ?_⟩
      · exact List.pairwise_map.mpr (hrest.imp fun hab => .inr ⟨rfl, hab⟩)
      · intro p hp q hq
        obtain ⟨_, -, rfl⟩ := List.mem_map.mp hp
        obtain ⟨i, _, -, hi, -⟩ := exists_getElem?_of_mem_orderedPairs hq
        exact .inl (hfirst q.1 (List.mem_of_getElem? hi))

/-- The positions of the first choice come before those of the second in
lexicographic order. -/
def Choice.Before (p q : Choice ι α) : Prop :=
  p.leftPosition < q.leftPosition ∨
    p.leftPosition = q.leftPosition ∧ p.rightPosition < q.rightPosition

theorem Level.pairwise_before_choices [Score α] (scores : ι → ι → α)
    (level : Level ι α) : (level.choices scores).Pairwise Choice.Before := by
  refine List.pairwise_map.mpr
    ((pairwise_orderedPairs (pairwise_zipIdx level)).imp ?_)
  rintro p q (hleft | ⟨hleft, hright⟩)
  · exact .inl hleft
  · exact .inr ⟨congrArg Prod.snd hleft, hright⟩

theorem Level.mem_choices_of_getElem? [Score α] (scores : ι → ι → α)
    {level : Level ι α} {i j : Nat} {a b : Cluster ι α} (hij : i < j)
    (hi : level[i]? = some a) (hj : level[j]? = some b) :
    ⟨i, j, a, b, a.average scores b⟩ ∈ level.choices scores := by
  have hleft : level.zipIdx[i]? = some (a, i) := by
    simp [List.getElem?_zipIdx, hi]
  have hright : level.zipIdx[j]? = some (b, j) := by
    simp [List.getElem?_zipIdx, hj]
  exact List.mem_map.mpr
    ⟨_, mem_orderedPairs_of_getElem? hij hleft hright, rfl⟩

/-! ## The running maximum -/

/-- The choice that the search ends with splits the choices into earlier ones,
all weaker, and later ones, none stronger. -/
theorem foldl_stronger_split [Score α] {accepts : α → Prop}
    (horder : Score.WeakOrder accepts) (first : Choice ι α)
    (more : List (Choice ι α))
    (haccepts : ∀ choice ∈ first :: more, accepts choice.coupling) :
    ∃ before after,
      first :: more =
        before ++ more.foldl Choice.stronger first :: after ∧
      (∀ choice ∈ before, Score.lt choice.coupling
        (more.foldl Choice.stronger first).coupling) ∧
      ∀ choice ∈ after, ¬ Score.lt
        (more.foldl Choice.stronger first).coupling choice.coupling := by
  induction more using List.reverseRecOn with
  | nil => exact ⟨[], [], rfl, by simp, by simp⟩
  | append_singleton more last ih =>
      obtain ⟨before, after, hsplit, hbefore, hafter⟩ := ih fun choice hmem =>
        haccepts choice (by
          rw [← List.cons_append]
          exact List.mem_append_left _ hmem)
      rw [List.foldl_append, List.foldl_cons, List.foldl_nil,
        ← List.cons_append]
      generalize more.foldl Choice.stronger first = best
        at hsplit hbefore hafter ⊢
      rw [← List.cons_append, hsplit] at haccepts
      rw [hsplit]
      have hbest := haccepts best (by simp)
      have hlast := haccepts last (by simp)
      unfold Choice.stronger
      split
      · -- the last choice takes over, and everything before it is weaker
        rename_i hlt
        refine ⟨before ++ best :: after, [], rfl, ?_, by simp⟩
        intro choice hmem
        have hchoice := haccepts choice (List.mem_append_left _ hmem)
        rcases List.mem_append.mp hmem with hearly | hlate
        · exact horder.trans _ _ _ hchoice hbest hlast
            (hbefore choice hearly) hlt
        · rcases List.mem_cons.mp hlate with rfl | hlate
          · exact hlt
          · exact horder.lt_of_lt_of_not_lt hbest hchoice hlast hlt
              (hafter choice hlate)
      · rename_i hnlt
        refine ⟨before, after ++ [last], by simp, hbefore, ?_⟩
        intro choice hmem
        rcases List.mem_append.mp hmem with hlate | hmem
        · exact hafter choice hlate
        · obtain rfl := List.mem_singleton.mp hmem
          exact hnlt

theorem Level.choices_split_of_strongest? [Score α] {accepts : α → Prop}
    (horder : Score.WeakOrder accepts) {scores : ι → ι → α}
    (haccepts : ∀ a b : Cluster ι α, accepts (a.average scores b))
    {level : Level ι α} {choice : Choice ι α}
    (hchoice : level.strongest? scores = some choice) :
    ∃ before after, level.choices scores = before ++ choice :: after ∧
      (∀ other ∈ before, Score.lt other.coupling choice.coupling) ∧
      ∀ other ∈ after, ¬ Score.lt choice.coupling other.coupling := by
  unfold Level.strongest? at hchoice
  split at hchoice
  · cases hchoice
  · rename_i first more hchoices
    cases hchoice
    rw [hchoices]
    apply foldl_stronger_split horder
    intro other hother
    rw [← hchoices] at hother
    rw [Level.coupling_of_mem_choices hother]
    exact haccepts _ _

/-! ## The first of the strongest pairs -/

/-- The clusters at two positions of a level are coupled with the given strength.
No two clusters of the level are coupled more strongly, and all that come before
them in lexicographic order are coupled less strongly. -/
structure Level.FirstStrongest [Score α]
    (strength : Cluster ι α → Cluster ι α → α) (level : Level ι α)
    (i j : Nat) (best : α) : Prop where
  attained : ∃ a b, i < j ∧ level[i]? = some a ∧ level[j]? = some b ∧
    best = strength a b
  greatest : ∀ (p q : Nat) a b, p < q →
    level[p]? = some a → level[q]? = some b → ¬ Score.lt best (strength a b)
  first : ∀ (p q : Nat) a b, p < q →
    level[p]? = some a → level[q]? = some b →
    p < i ∨ p = i ∧ q < j → Score.lt (strength a b) best

theorem Level.FirstStrongest.unique [Score α]
    {strength : Cluster ι α → Cluster ι α → α} {level : Level ι α}
    {i j p q : Nat} {best other : α}
    (hbest : level.FirstStrongest strength i j best)
    (hother : level.FirstStrongest strength p q other) : p = i ∧ q = j := by
  obtain ⟨a, b, hij, hi, hj, rfl⟩ := hbest.attained
  obtain ⟨c, d, hpq, hp, hq, rfl⟩ := hother.attained
  by_contra hne
  by_cases hearlier : p < i ∨ p = i ∧ q < j
  · exact hother.greatest i j a b hij hi hj
      (hbest.first p q c d hpq hp hq hearlier)
  · exact hbest.greatest p q c d hpq hp hq
      (hother.first i j a b hij hi hj (by omega))

theorem Level.firstStrongest_of_strongest? [Score α] {accepts : α → Prop}
    (horder : Score.WeakOrder accepts) {scores : ι → ι → α}
    (haccepts : ∀ a b : Cluster ι α, accepts (a.average scores b))
    {level : Level ι α} {choice : Choice ι α}
    (hchoice : level.strongest? scores = some choice) :
    level.FirstStrongest (Cluster.average scores) choice.leftPosition
      choice.rightPosition choice.coupling := by
  have hmem := Level.mem_choices_of_strongest? hchoice
  have hcoupling := Level.coupling_of_mem_choices hmem
  have hfits := Level.fitsLevel_of_mem_choices hmem
  obtain ⟨before, after, hsplit, hbefore, hafter⟩ :=
    Level.choices_split_of_strongest? horder haccepts hchoice
  have hsorted := Level.pairwise_before_choices scores level
  rw [hsplit] at hsorted
  have hlater := (List.pairwise_cons.mp (List.pairwise_append.mp hsorted).2.1).1
  have haccepted : accepts choice.coupling := by
    rw [hcoupling]
    exact haccepts _ _
  have hself := horder.irrefl _ haccepted
  constructor
  · exact ⟨_, _, hfits.ordered, hfits.left, hfits.right, hcoupling⟩
  · intro p q a b hpq hp hq
    have hother := Level.mem_choices_of_getElem? scores hpq hp hq
    rw [hsplit] at hother
    rcases List.mem_append.mp hother with hearly | hlate
    · intro hlt
      exact hself (horder.trans _ _ _ haccepted (haccepts a b) haccepted
        hlt (hbefore _ hearly))
    · rcases List.mem_cons.mp hlate with heq | hlate
      · exact heq ▸ hself
      · exact hafter _ hlate
  · intro p q a b hpq hp hq hearlier
    have hother := Level.mem_choices_of_getElem? scores hpq hp hq
    rw [hsplit] at hother
    rcases List.mem_append.mp hother with hearly | hlate
    · exact hbefore _ hearly
    · -- the choice itself and the later ones do not come before it
      rcases List.mem_cons.mp hlate with rfl | hlate
      · simp at hearlier
      · have hafterwards := hlater _ hlate
        simp only [Choice.Before] at hafterwards
        omega

/-! ## Runs on doubles -/

theorem Linkage.isMagnitude_score (coupling : Coupling) (names : Array String)
    (i j : Fin names.size) :
    Double.IsMagnitude ((Linkage.ofCoupling coupling names).score i j) := by
  rw [Linkage.score_ofCoupling]
  exact coupling.isMagnitude_between _ _

/-- A run goes by the couplings of the names, which are finite and not negative.
Each of its steps merges the first of the strongest pairs of its level and records
their coupling. -/
theorem Clustering.run_merges_first_strongest (coupling : Coupling)
    (names : Array String) :
    let clustering : Clustering Float := Clustering.run coupling names
    (∀ i j : Fin names.size,
      clustering.linkage.score i j =
        coupling.between (names.toVector.get i) (names.toVector.get j) ∧
      (clustering.linkage.score i j).isFinite = true ∧
      0 ≤ clustering.linkage.score i j) ∧
    ∀ k, k + 1 < names.size → ∃ level next step i j,
      clustering.dendrogram.levels[k]? = some level ∧
      clustering.dendrogram.levels[k + 1]? = some next ∧
      clustering.dendrogram.merges[k]? = some step ∧
      step.Joins level next i j ∧
      step.coupling = clustering.linkage.between step.left step.right ∧
      level.FirstStrongest clustering.linkage.between i j step.coupling ∧
      ∀ p q best, level.FirstStrongest clustering.linkage.between p q best →
        p = i ∧ q = j := by
  intro clustering
  refine ⟨?_, ?_⟩
  · intro i j
    have hscore : clustering.linkage.score i j =
        coupling.between (names.toVector.get i) (names.toVector.get j) :=
      Linkage.score_ofCoupling coupling names i j
    refine ⟨hscore, ?_, ?_⟩
    · rw [hscore]
      exact coupling.isFinite_between _ _
    · exact of_decide_eq_true
        (Linkage.isMagnitude_score coupling names i j).zero_le
  · intro k hk
    rw [← List.length_finRange (n := names.size)] at hk
    obtain ⟨level, hlevel⟩ :=
      Dendrogram.exists_getElem?_levels clustering.linkage.score
        (Nat.lt_of_succ_lt hk)
    obtain ⟨next, hnext⟩ :=
      Dendrogram.exists_getElem?_levels clustering.linkage.score hk
    obtain ⟨choice, step, hchoice, hstep, -, hcoupling, hjoins⟩ :=
      Dendrogram.exists_merge_joins hlevel hnext
    have hstrongest : level.FirstStrongest clustering.linkage.between
        choice.leftPosition choice.rightPosition step.coupling := by
      rw [hcoupling]
      refine Level.firstStrongest_of_strongest? Double.weakOrder_isNumber
        ?_ hchoice
      intro a b
      exact (Cluster.isMagnitude_average
        (Linkage.isMagnitude_score coupling names) a b).isNumber
    refine ⟨level, next, step, _, _, hlevel, hnext, hstep, hjoins, ?_,
      hstrongest, ?_⟩
    · obtain ⟨a, b, -, ha, hb, hbest⟩ := hstrongest.attained
      rw [hjoins.left] at ha
      rw [hjoins.right] at hb
      cases ha
      cases hb
      exact hbest
    · intro p q best hother
      exact hstrongest.unique hother

end ModuleRecovery
