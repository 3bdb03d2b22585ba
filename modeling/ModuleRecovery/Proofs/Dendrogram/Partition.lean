import ModuleRecovery.Proofs.Dendrogram.Run

/-!
# Levels as partitions

Every level of a clustering partitions the items, and the listed steps tell the
whole run: each of them takes two clusters out of a level and puts their merge
behind the rest.  Since the member lists of a level are pairwise distinct, they
may be taken out by value, so the list of steps can be replayed without knowing
the positions.  No property of the scores is used.
-/

namespace ModuleRecovery

variable {ι α : Type}

/-! ## Partition -/

theorem Level.map_members_ofItems (items : List ι) :
    (Level.ofItems items : Level ι α).map Cluster.members =
      items.map fun item => [item] := by
  have hmap : (Level.ofItems items : Level ι α).map Cluster.members =
      (items.zipIdx.map Prod.fst).map fun item => [item] := by
    unfold Level.ofItems
    rw [List.map_map, List.map_map]
    rfl
  rw [hmap, List.zipIdx_map_fst]

theorem Choice.FitsLevel.flatMap_members_perm {choice : Choice ι α}
    {level : Level ι α} (hfits : choice.FitsLevel level) (id : Nat) :
    ((level.apply id choice).flatMap Cluster.members).Perm
      (level.flatMap Cluster.members) := by
  have hlevel :
      (level.flatMap Cluster.members).Perm
        (choice.left.members ++
          (choice.right.members ++
            (choice.others level).flatMap Cluster.members)) := by
    simpa using hfits.perm.flatMap_right Cluster.members
  have happly :
      (level.apply id choice).flatMap Cluster.members =
        (choice.others level).flatMap Cluster.members ++
          (choice.left.members ++ choice.right.members) := by
    simp [Level.apply, Choice.others, Cluster.members]
  rw [happly]
  refine List.perm_append_comm.trans ?_
  simpa using hlevel.symm

namespace Dendrogram

/-- The members of the clusters of a level are the items, each once. -/
theorem flatMap_members_perm [Score α] {scores : ι → ι → α}
    {items : List ι} {k : Nat} {level : Level ι α}
    (hlevel : (ofItems scores items).levels[k]? = some level) :
    (level.flatMap Cluster.members).Perm items := by
  refine levels_induction
    (P := fun _ level => (level.flatMap Cluster.members).Perm items)
    ?_ ?_ hlevel
  · rw [List.flatMap_def, Level.map_members_ofItems, ← List.flatMap_def,
      List.flatMap_singleton']
  · intro k level next hperm hstep
    obtain ⟨choice, -, hfits, -, rfl⟩ := Level.step?_cases hstep
    exact (hfits.flatMap_members_perm _).trans hperm

theorem nodup_map_members [Score α] {scores : ι → ι → α} {items : List ι}
    (hitems : items.Nodup) {k : Nat} {level : Level ι α}
    (hlevel : (ofItems scores items).levels[k]? = some level) :
    (level.map Cluster.members).Nodup := by
  have hnodup : (level.flatMap Cluster.members).Nodup :=
    (flatMap_members_perm hlevel).nodup_iff.mpr hitems
  have hdisjoint := (List.nodup_flatMap.mp hnodup).2
  rw [List.Nodup, List.pairwise_map]
  refine hdisjoint.imp ?_
  intro a b hab heq
  obtain ⟨item, hitem⟩ := List.exists_mem_of_ne_nil _ a.members_ne_nil
  exact hab hitem (heq ▸ hitem)

end Dendrogram

/-! ## The listed steps -/

/-- The step takes the clusters at two positions out of a level and puts their
merge behind the others, which keep their order. -/
structure Merge.Joins (step : Merge ι α) (level next : Level ι α)
    (i j : Nat) : Prop where
  ordered : i < j
  left : level[i]? = some step.left
  right : level[j]? = some step.right
  children : step.merged.children? = some (step.left, step.right)
  coupling : step.merged.coupling? = some step.coupling
  members : step.merged.members = step.left.members ++ step.right.members
  next : next = (level.eraseIdx j).eraseIdx i ++ [step.merged]

theorem Level.exists_joins_of_step? [Score α] {scores : ι → ι → α} {id : Nat}
    {level next : Level ι α} (hstep : level.step? scores id = some next)
    (index : Nat) :
    ∃ choice step, level.strongest? scores = some choice ∧
      Merge.ofLevel? next index = some step ∧ step.level = index ∧
      step.coupling = choice.coupling ∧
      step.Joins level next choice.leftPosition choice.rightPosition := by
  obtain ⟨choice, hchoice, hfits, -, rfl⟩ := Level.step?_cases hstep
  let merged : Cluster ι α :=
    .merge id choice.left choice.right choice.coupling
  refine ⟨choice,
    ⟨index, choice.left, choice.right, merged, choice.coupling⟩,
    hchoice, by simp [Merge.ofLevel?, merged], rfl, rfl, ?_⟩
  exact
    { ordered := hfits.ordered
      left := hfits.left
      right := hfits.right
      children := rfl
      coupling := rfl
      members := rfl
      next := rfl }

theorem getElem?_filterMap_of_isSome {β γ : Type} {f : β → Option γ}
    {list : List β} (h : ∀ x ∈ list, (f x).isSome) (k : Nat) :
    (list.filterMap f)[k]? = list[k]?.bind f := by
  induction list generalizing k with
  | nil => simp
  | cons first rest ih =>
      obtain ⟨value, hvalue⟩ := Option.isSome_iff_exists.mp (h first (by simp))
      rw [List.filterMap_cons_some hvalue]
      cases k with
      | zero => simp [hvalue]
      | succ k =>
          simpa using ih (fun x hx => h x (List.mem_cons_of_mem _ hx)) k

namespace Dendrogram

/-- Every level but the first ends in the merge that led to it. -/
theorem isSome_ofLevel? [Score α] {scores : ι → ι → α} {items : List ι}
    {entry : Level ι α × Nat}
    (h : entry ∈ (ofItems scores items).levels.zipIdx.drop 1) :
    (Merge.ofLevel? entry.1 entry.2).isSome := by
  obtain ⟨next, index⟩ := entry
  obtain ⟨k, hk⟩ := List.mem_iff_getElem?.mp h
  simp only [List.getElem?_drop, List.getElem?_zipIdx,
    Option.map_eq_some_iff, Prod.mk.injEq, Nat.add_comm 1 k] at hk
  obtain ⟨_, hnext, rfl, rfl⟩ := hk
  rw [getElem?_levels_succ] at hnext
  obtain ⟨level, -, hstep⟩ := Option.bind_eq_some_iff.mp hnext
  obtain ⟨_, step, -, hstep, -⟩ :=
    Level.exists_joins_of_step? hstep (0 + (k + 1))
  exact Option.isSome_iff_exists.mpr ⟨step, hstep⟩

theorem getElem?_merges [Score α] (scores : ι → ι → α) (items : List ι)
    (k : Nat) :
    (ofItems scores items).merges[k]? =
      ((ofItems scores items).levels[k + 1]?).bind
        fun next => Merge.ofLevel? next (k + 1) := by
  unfold merges
  rw [getElem?_filterMap_of_isSome fun _ => isSome_ofLevel?]
  simp only [List.getElem?_drop, List.getElem?_zipIdx, Option.bind_map,
    Nat.zero_add, Nat.add_comm 1 k]
  rfl

theorem exists_merge_joins [Score α] {scores : ι → ι → α} {items : List ι}
    {k : Nat} {level next : Level ι α}
    (hlevel : (ofItems scores items).levels[k]? = some level)
    (hnext : (ofItems scores items).levels[k + 1]? = some next) :
    ∃ choice step, level.strongest? scores = some choice ∧
      (ofItems scores items).merges[k]? = some step ∧ step.level = k + 1 ∧
      step.coupling = choice.coupling ∧
      step.Joins level next choice.leftPosition choice.rightPosition := by
  obtain ⟨choice, step, hchoice, hstep, hjoins⟩ := Level.exists_joins_of_step?
    (step?_of_getElem?_levels hlevel hnext) (k + 1)
  refine ⟨choice, step, hchoice, ?_, hjoins⟩
  rw [getElem?_merges, hnext]
  exact hstep

/-- There is one step fewer than there are items. -/
theorem length_merges [Score α] (scores : ι → ι → α) (items : List ι) :
    (ofItems scores items).merges.length = items.length - 1 := by
  have hend : ∀ k, (ofItems scores items).merges.length ≤ k ↔
      items.length ≤ k + 1 := by
    intro k
    rw [← length_levels scores items, ← List.getElem?_eq_none_iff,
      ← List.getElem?_eq_none_iff, getElem?_merges]
    cases hnext : (ofItems scores items).levels[k + 1]? with
    | none => simp
    | some next =>
        have hstep := hnext
        rw [getElem?_levels_succ] at hstep
        obtain ⟨level, -, hstep⟩ := Option.bind_eq_some_iff.mp hstep
        obtain ⟨_, step, -, hstep, -⟩ :=
          Level.exists_joins_of_step? hstep (k + 1)
        simp [hstep]
  have hfits := hend (items.length - 1)
  have hexact := hend (ofItems scores items).merges.length
  omega

/-- Every listed step leads from one level to the next. -/
theorem exists_levels_of_getElem?_merges [Score α] {scores : ι → ι → α}
    {items : List ι} {k : Nat} {step : Merge ι α}
    (hstep : (ofItems scores items).merges[k]? = some step) :
    ∃ level next choice, (ofItems scores items).levels[k]? = some level ∧
      (ofItems scores items).levels[k + 1]? = some next ∧
      level.strongest? scores = some choice ∧
      step.coupling = choice.coupling ∧
      step.Joins level next choice.leftPosition choice.rightPosition := by
  have hbound : k < items.length - 1 := by
    rw [← length_merges scores items]
    exact (List.getElem?_eq_some_iff.mp hstep).1
  have hhere : k < items.length := by omega
  have hafter : k + 1 < items.length := by omega
  obtain ⟨level, hlevel⟩ := exists_getElem?_levels scores hhere
  obtain ⟨next, hnext⟩ := exists_getElem?_levels scores hafter
  obtain ⟨choice, made, hchoice, hmade, -, hcoupling, hjoins⟩ :=
    exists_merge_joins hlevel hnext
  cases hstep.symm.trans hmade
  exact ⟨level, next, choice, hlevel, hnext, hchoice, hcoupling, hjoins⟩

end Dendrogram

/-! ## Replaying the steps -/

/-- What a step does to the member lists of a level: those of its two parts leave
and their concatenation is put behind the others. -/
def Merge.replay [DecidableEq ι] (parts : List (List ι))
    (step : Merge ι α) : List (List ι) :=
  (parts.erase step.left.members).erase step.right.members ++
    [step.left.members ++ step.right.members]

theorem erase_erase_eq_eraseIdx_eraseIdx {β : Type} [BEq β] [LawfulBEq β]
    {list : List β} (hnodup : list.Nodup) {i j : Nat} {a b : β} (hij : i < j)
    (hi : list[i]? = some a) (hj : list[j]? = some b) :
    (list.erase a).erase b = (list.eraseIdx j).eraseIdx i := by
  obtain ⟨hjBound, rfl⟩ := List.getElem?_eq_some_iff.mp hj
  have hrest : (list.eraseIdx j)[i]? = some a := by
    rw [List.getElem?_eraseIdx_of_lt hij]
    exact hi
  obtain ⟨hiBound, hiEq⟩ := List.getElem?_eq_some_iff.mp hrest
  calc
    (list.erase a).erase list[j] = (list.erase list[j]).erase a :=
      List.erase_comm _ _
    _ = (list.eraseIdx j).erase a := by
      rw [hnodup.erase_getElem j hjBound]
    _ = (list.eraseIdx j).erase (list.eraseIdx j)[i] := by rw [hiEq]
    _ = (list.eraseIdx j).eraseIdx i :=
      (hnodup.sublist (List.eraseIdx_sublist _ _)).erase_getElem i hiBound

theorem Merge.Joins.replay_eq [DecidableEq ι] {step : Merge ι α}
    {level next : Level ι α} {i j : Nat} (hjoins : step.Joins level next i j)
    (hnodup : (level.map Cluster.members).Nodup) :
    Merge.replay (level.map Cluster.members) step =
      next.map Cluster.members := by
  have hleft : (level.map Cluster.members)[i]? = some step.left.members := by
    rw [List.getElem?_map, hjoins.left]
    rfl
  have hright : (level.map Cluster.members)[j]? = some step.right.members := by
    rw [List.getElem?_map, hjoins.right]
    rfl
  unfold Merge.replay
  rw [erase_erase_eq_eraseIdx_eraseIdx hnodup hjoins.ordered hleft hright,
    hjoins.next]
  simp [List.eraseIdx_map, hjoins.members]

namespace Dendrogram

theorem map_members_eq_foldl_replay [Score α] [DecidableEq ι]
    {scores : ι → ι → α} {items : List ι} (hitems : items.Nodup) {k : Nat}
    {level : Level ι α}
    (hlevel : (ofItems scores items).levels[k]? = some level) :
    level.map Cluster.members =
      ((ofItems scores items).merges.take k).foldl Merge.replay
        (items.map fun item => [item]) := by
  induction k generalizing level with
  | zero =>
      rw [eq_ofItems_of_getElem?_levels_zero hlevel]
      simpa using Level.map_members_ofItems items
  | succ k ih =>
      have hbound := (List.getElem?_eq_some_iff.mp hlevel).1
      have hbefore := List.getElem?_eq_getElem (Nat.lt_of_succ_lt hbound)
      obtain ⟨_, step, -, hstep, -, -, hjoins⟩ :=
        exists_merge_joins hbefore hlevel
      rw [List.take_add_one, hstep, List.foldl_append, ← ih hbefore]
      exact (hjoins.replay_eq (nodup_map_members hitems hbefore)).symm

end Dendrogram

/-! ## Runs on named classes -/

/-- A run on `n` names has `n` levels, level `k` partitions the classes into
`n - k` clusters, and the listed steps are exactly those that lead from each level
to the next, so replaying them gives all levels back. -/
theorem Clustering.run_levels_partition [Score α] (coupling : Coupling)
    (names : Array String) :
    let dendrogram := (Clustering.run coupling names : Clustering α).dendrogram
    dendrogram.levels.length = names.size ∧
      (∀ k level, dendrogram.levels[k]? = some level →
        level.length = names.size - k ∧
          (level.flatMap Cluster.members).Perm
            (List.finRange names.size)) ∧
      dendrogram.merges.length = names.size - 1 ∧
      (∀ k level next, dendrogram.levels[k]? = some level →
        dendrogram.levels[k + 1]? = some next →
        ∃ step, dendrogram.merges[k]? = some step ∧ step.level = k + 1 ∧
          ∃ i j, step.Joins level next i j) ∧
      (∀ k level, dendrogram.levels[k]? = some level →
        level.map Cluster.members =
          (dendrogram.merges.take k).foldl Merge.replay
            ((List.finRange names.size).map fun i => [i])) := by
  intro dendrogram
  refine ⟨?_, ?_, ?_, ?_, ?_⟩
  · exact (Dendrogram.length_levels _ _).trans List.length_finRange
  · intro k level hlevel
    have hlength : level.length + k = names.size :=
      (Dendrogram.length_of_getElem?_levels hlevel).trans List.length_finRange
    exact ⟨by omega, Dendrogram.flatMap_members_perm hlevel⟩
  · exact (Dendrogram.length_merges _ _).trans
      (congrArg (· - 1) List.length_finRange)
  · intro k level next hlevel hnext
    obtain ⟨_, step, -, hstep, hindex, -, hjoins⟩ :=
      Dendrogram.exists_merge_joins hlevel hnext
    exact ⟨step, hstep, hindex, _, _, hjoins⟩
  · intro k level hlevel
    exact Dendrogram.map_members_eq_foldl_replay (List.nodup_finRange _) hlevel

end ModuleRecovery
