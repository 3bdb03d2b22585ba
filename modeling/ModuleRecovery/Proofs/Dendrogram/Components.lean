import ModuleRecovery.Proofs.Dendrogram.Greedy
import ModuleRecovery.Proofs.Score.Positive

/-!
# Connected components

Draw an edge between two classes that are coupled at all.  Two clusters are then
coupled exactly when an edge leads from one to the other, so a run follows edges
as long as it finds any: the clusters stay connected, and each merge joins two
clusters of one component.  A level whose clusters are connected has at least as
many clusters as there are components, and a level between whose clusters no edge
is left has at most as many.  So the run stops following edges at the one level
where the two numbers agree.  There the clusters are the components, and from
there on everything it merges is uncoupled.
-/

namespace ModuleRecovery

variable {ι α : Type}

theorem card_le_length_of_forall_mem {β : Type} [Finite β] {list : List β}
    (h : ∀ x, x ∈ list) : Nat.card β ≤ list.length := by
  classical
  have := Fintype.ofFinite β
  calc
    Nat.card β = (Finset.univ : Finset β).card := Nat.card_eq_fintype_card
    _ ≤ list.toFinset.card :=
      Finset.card_le_card fun x _ => List.mem_toFinset.mpr (h x)
    _ ≤ list.length := list.toFinset_card_le

theorem nodup_of_forall_mem {β : Type} [Finite β] {list : List β}
    (h : ∀ x, x ∈ list) (hlength : list.length = Nat.card β) :
    list.Nodup := by
  classical
  have hdedup := card_le_length_of_forall_mem
    fun x => List.mem_dedup.mpr (h x)
  have heq := (List.dedup_sublist list).eq_of_length_le
    (hlength.trans_le hdedup)
  exact List.dedup_eq_self.mp heq

/-! ## Clusters in a graph -/

/-- Every item is a member of one cluster of the level and of no other. -/
structure Level.Partitions (level : Level ι α) : Prop where
  covers : ∀ i, ∃ cluster ∈ level, i ∈ cluster.members
  disjoint : level.Pairwise fun a b => a.members.Disjoint b.members

/-- The component of the first member. -/
def Cluster.component (graph : SimpleGraph ι) (cluster : Cluster ι α) :
    graph.ConnectedComponent :=
  graph.connectedComponentMk (cluster.members.head cluster.members_ne_nil)

/-- Each cluster of the level lies within one component. -/
def Level.Connected (graph : SimpleGraph ι) (level : Level ι α) : Prop :=
  ∀ cluster ∈ level, ∀ i ∈ cluster.members,
    graph.connectedComponentMk i = cluster.component graph

/-- No edge leads from one cluster to the other. -/
def Cluster.Apart (graph : SimpleGraph ι) (a b : Cluster ι α) : Prop :=
  ∀ i ∈ a.members, ∀ j ∈ b.members, ¬ graph.Adj i j

def Level.Apart (graph : SimpleGraph ι) (level : Level ι α) : Prop :=
  level.Pairwise (Cluster.Apart graph)

theorem Cluster.Apart.symm {graph : SimpleGraph ι} {a b : Cluster ι α}
    (h : a.Apart graph b) : b.Apart graph a := by
  intro i hi j hj hadj
  exact h j hj i hi hadj.symm

namespace Level

variable {graph : SimpleGraph ι} {level : Level ι α} {choice : Choice ι α}

theorem Connected.mem_components (h : level.Connected graph)
    (hpart : level.Partitions) (component : graph.ConnectedComponent) :
    component ∈ level.map (Cluster.component graph) := by
  induction component using SimpleGraph.ConnectedComponent.ind with
  | _ i =>
      obtain ⟨cluster, hmem, hi⟩ := hpart.covers i
      exact List.mem_map.mpr ⟨cluster, hmem, (h cluster hmem i hi).symm⟩

theorem Connected.mem_members_iff (h : level.Connected graph)
    (hpart : level.Partitions)
    (hnodup : (level.map (Cluster.component graph)).Nodup)
    {cluster : Cluster ι α} (hmem : cluster ∈ level) (i : ι) :
    i ∈ cluster.members ↔
      graph.connectedComponentMk i = cluster.component graph := by
  constructor
  · exact h cluster hmem i
  · intro hi
    obtain ⟨other, hother, hiOther⟩ := hpart.covers i
    have heq : other.component graph = cluster.component graph :=
      (h other hother i hiOther).symm.trans hi
    rwa [← List.inj_on_of_nodup_map hnodup hother hmem heq]

theorem Connected.apart (h : level.Connected graph)
    (hnodup : (level.map (Cluster.component graph)).Nodup) :
    level.Apart graph := by
  rw [List.Nodup, List.pairwise_map] at hnodup
  refine hnodup.imp_of_mem ?_
  intro a b ha hb hne i hi j hj hadj
  apply hne
  calc
    a.component graph = graph.connectedComponentMk i := (h a ha i hi).symm
    _ = graph.connectedComponentMk j :=
      SimpleGraph.ConnectedComponent.sound hadj.reachable
    _ = b.component graph := h b hb j hj

theorem Apart.mem_of_adj (h : level.Apart graph) (hpart : level.Partitions)
    {cluster : Cluster ι α} (hmem : cluster ∈ level) {i j : ι}
    (hi : i ∈ cluster.members) (hadj : graph.Adj i j) :
    j ∈ cluster.members := by
  obtain ⟨other, hother, hj⟩ := hpart.covers j
  by_cases heq : cluster = other
  · rwa [heq]
  · have hsymm : Std.Symm (Cluster.Apart (α := α) graph) :=
      ⟨fun _ _ => Cluster.Apart.symm⟩
    have hapart := List.Pairwise.forall h hmem hother heq
    exact (hapart i hi j hj hadj).elim

theorem Apart.mem_of_walk (h : level.Apart graph) (hpart : level.Partitions)
    {cluster : Cluster ι α} (hmem : cluster ∈ level) {i j : ι}
    (hi : i ∈ cluster.members) (walk : graph.Walk i j) :
    j ∈ cluster.members := by
  induction walk with
  | nil => exact hi
  | cons hadj _ ih => exact ih (h.mem_of_adj hpart hmem hi hadj)

theorem Apart.nodup_components (h : level.Apart graph)
    (hpart : level.Partitions) :
    (level.map (Cluster.component graph)).Nodup := by
  rw [List.Nodup, List.pairwise_map]
  refine hpart.disjoint.imp_of_mem ?_
  intro a b ha hb hdisjoint heq
  obtain ⟨walk⟩ := SimpleGraph.ConnectedComponent.exact heq
  have hhead := h.mem_of_walk hpart ha (List.head_mem _) walk
  exact hdisjoint hhead (List.head_mem _)

theorem Apart.length_le_card [Finite ι] (h : level.Apart graph)
    (hpart : level.Partitions) :
    level.length ≤ Nat.card graph.ConnectedComponent := by
  have := Fintype.ofFinite graph.ConnectedComponent
  rw [Nat.card_eq_fintype_card, ← level.length_map (Cluster.component graph)]
  exact (h.nodup_components hpart).length_le_card

/-! ### One merge -/

theorem connected_ofItems (graph : SimpleGraph ι) (items : List ι) :
    Connected graph (Level.ofItems items : Level ι α) := by
  intro cluster hmem i hi
  obtain ⟨⟨item, id⟩, -, rfl⟩ := List.mem_map.mp hmem
  rw [List.mem_singleton.mp hi]
  rfl

theorem Connected.merge (h : level.Connected graph)
    (hfits : choice.FitsLevel level)
    (hedge : ∃ i ∈ choice.left.members, ∃ j ∈ choice.right.members,
      graph.Adj i j) (id : ℕ) (coupling : α) :
    Connected graph (choice.others level ++
      [.merge id choice.left choice.right coupling]) := by
  obtain ⟨i, hi, j, hj, hadj⟩ := hedge
  have hleft := h _ (List.mem_of_getElem? hfits.left)
  have hright := h _ (List.mem_of_getElem? hfits.right)
  have hparts :
      choice.right.component graph = choice.left.component graph := by
    rw [← hleft i hi, ← hright j hj]
    exact SimpleGraph.ConnectedComponent.sound hadj.symm.reachable
  have hmerged :
      (Cluster.merge id choice.left choice.right coupling).component graph =
        choice.left.component graph :=
    congrArg graph.connectedComponentMk
      (List.head_append_of_ne_nil choice.left.members_ne_nil)
  intro cluster hmem k hk
  rcases List.mem_append.mp hmem with hold | hnew
  · exact h cluster (hfits.mem_of_mem_others hold) k hk
  · obtain rfl := List.mem_singleton.mp hnew
    rw [hmerged]
    rcases List.mem_append.mp hk with hk | hk
    · exact hleft k hk
    · exact (hright k hk).trans hparts

theorem Apart.merge (h : level.Apart graph) (hfits : choice.FitsLevel level)
    (id : ℕ) (coupling : α) :
    Apart graph (choice.others level ++
      [.merge id choice.left choice.right coupling]) := by
  refine hfits.pairwise_merge Cluster.Apart.symm ?_ h
  intro a hleft hright i hi j hj
  rcases List.mem_append.mp hj with hj | hj
  · exact hleft i hi j hj
  · exact hright i hi j hj

theorem apart_of_length_le_one (graph : SimpleGraph ι)
    (h : level.length ≤ 1) : level.Apart graph := by
  refine List.pairwise_iff_getElem.mpr ?_
  intro p q hp hq hpq
  omega

theorem Apart.left_right (h : level.Apart graph)
    (hfits : choice.FitsLevel level) :
    choice.left.Apart graph choice.right := by
  obtain ⟨hi, hleft⟩ := List.getElem?_eq_some_iff.mp hfits.left
  obtain ⟨hj, hright⟩ := List.getElem?_eq_some_iff.mp hfits.right
  rw [← hleft, ← hright]
  exact List.pairwise_iff_getElem.mp h _ _ hi hj hfits.ordered

end Level

/-! ## Scores that draw a graph -/

/-- The scores are positive along the edges of the graph and zero elsewhere. -/
structure Draws (scores : ι → ι → Float) (graph : SimpleGraph ι) : Prop where
  edge : ∀ i j, graph.Adj i j → Double.IsSubstantial (scores i j)
  other : ∀ i j, ¬ graph.Adj i j → scores i j = Score.zero

namespace Draws

variable {scores : ι → ι → Float} {graph : SimpleGraph ι}

theorem zero_or_isSubstantial (h : Draws scores graph) (i j : ι) :
    scores i j = Score.zero ∨ Double.IsSubstantial (scores i j) := by
  by_cases hadj : graph.Adj i j
  · exact .inr (h.edge i j hadj)
  · exact .inl (h.other i j hadj)

theorem isNumber_average (h : Draws scores graph) (a b : Cluster ι Float) :
    Double.IsNumber (a.average scores b) := by
  refine (Cluster.isMagnitude_average ?_ a b).isNumber
  intro i j
  rcases h.zero_or_isSubstantial i j with hzero | hpos
  · rw [hzero]
    exact Double.isMagnitude_zero
  · exact hpos.isMagnitude

theorem average_eq_zero (h : Draws scores graph) {a b : Cluster ι Float}
    (hapart : a.Apart graph b) : a.average scores b = Score.zero :=
  Cluster.average_eq_zero fun i hi j hj => h.other i j (hapart i hi j hj)

/-- As long as an edge leads from one cluster to another, the strongest pair is
joined by an edge. -/
theorem exists_adj_of_strongest? (h : Draws scores graph)
    {level : Level ι Float} {choice : Choice ι Float}
    (hchoice : level.strongest? scores = some choice)
    (hlevel : ¬ level.Apart graph) :
    ∃ i ∈ choice.left.members, ∃ j ∈ choice.right.members,
      graph.Adj i j := by
  have hfirst := Level.firstStrongest_of_strongest? Double.weakOrder_isNumber
    h.isNumber_average hchoice
  by_contra hnone
  push Not at hnone
  have hzero : choice.coupling = Score.zero := by
    rw [Level.coupling_of_mem_choices
      (Level.mem_choices_of_strongest? hchoice)]
    exact h.average_eq_zero hnone
  apply hlevel
  refine List.pairwise_iff_getElem.mpr ?_
  intro p q hp hq hpq i hi j hj hadj
  apply hfirst.greatest p q _ _ hpq
    (List.getElem?_eq_getElem hp) (List.getElem?_eq_getElem hq)
  rw [hzero]
  exact Cluster.zero_lt_average h.zero_or_isSubstantial hi hj
    (h.edge i j hadj)

theorem zero_lt_coupling_of_strongest? (h : Draws scores graph)
    {level : Level ι Float} {choice : Choice ι Float}
    (hchoice : level.strongest? scores = some choice)
    (hlevel : ¬ level.Apart graph) :
    Score.lt Score.zero choice.coupling = true := by
  obtain ⟨i, hi, j, hj, hadj⟩ := h.exists_adj_of_strongest? hchoice hlevel
  rw [Level.coupling_of_mem_choices (Level.mem_choices_of_strongest? hchoice)]
  exact Cluster.zero_lt_average h.zero_or_isSubstantial hi hj
    (h.edge i j hadj)

theorem coupling_of_strongest?_eq_zero (h : Draws scores graph)
    {level : Level ι Float} {choice : Choice ι Float}
    (hchoice : level.strongest? scores = some choice)
    (hlevel : level.Apart graph) : choice.coupling = Score.zero := by
  rw [Level.coupling_of_mem_choices (Level.mem_choices_of_strongest? hchoice)]
  exact h.average_eq_zero
    (hlevel.left_right (Level.fitsLevel_of_strongest? hchoice))

end Draws

/-! ## Runs -/

namespace Dendrogram

theorem partitions_of_getElem?_levels [Score α] {scores : ι → ι → α}
    {items : List ι} (hitems : items.Nodup) (hall : ∀ i, i ∈ items) {k : ℕ}
    {level : Level ι α}
    (hlevel : (ofItems scores items).levels[k]? = some level) :
    level.Partitions := by
  have hperm := flatMap_members_perm hlevel
  constructor
  · intro i
    exact List.mem_flatMap.mp (hperm.mem_iff.mpr (hall i))
  · exact (List.nodup_flatMap.mp (hperm.nodup_iff.mpr hitems)).2

variable [Finite ι] {scores : ι → ι → Float} {graph : SimpleGraph ι}
  {items : List ι} {k : ℕ} {level : Level ι Float}

theorem card_component_le_length (graph : SimpleGraph ι)
    (hall : ∀ i, i ∈ items) :
    Nat.card graph.ConnectedComponent ≤ items.length := by
  rw [← items.length_map graph.connectedComponentMk]
  apply card_le_length_of_forall_mem
  intro component
  induction component using SimpleGraph.ConnectedComponent.ind with
  | _ i => exact List.mem_map_of_mem (hall i)

/-- With more clusters than components some edge is left between clusters. -/
theorem not_apart_of_getElem?_levels (hitems : items.Nodup)
    (hall : ∀ i, i ∈ items)
    (hlevel : (ofItems scores items).levels[k]? = some level)
    (hk : k + Nat.card graph.ConnectedComponent < items.length) :
    ¬ level.Apart graph := by
  intro hapart
  have hle := hapart.length_le_card
    (partitions_of_getElem?_levels hitems hall hlevel)
  have hlength := length_of_getElem?_levels hlevel
  omega

section

variable (hdraws : Draws scores graph) (hitems : items.Nodup)
  (hall : ∀ i, i ∈ items)

include hdraws hitems hall

theorem connected_of_getElem?_levels
    (hlevel : (ofItems scores items).levels[k]? = some level)
    (hk : k + Nat.card graph.ConnectedComponent ≤ items.length) :
    level.Connected graph := by
  induction k generalizing level with
  | zero =>
      have hne : items ≠ [] := by
        rintro rfl
        simp [ofItems] at hlevel
      rw [getElem?_levels_zero scores hne] at hlevel
      cases hlevel
      exact Level.connected_ofItems graph items
  | succ k ih =>
      rw [getElem?_levels_succ] at hlevel
      obtain ⟨before, hbefore, hstep⟩ := Option.bind_eq_some_iff.mp hlevel
      obtain ⟨choice, hchoice, hfits, -, rfl⟩ := Level.step?_cases hstep
      have hedge : ¬ before.Apart graph :=
        not_apart_of_getElem?_levels hitems hall hbefore (by omega)
      exact (ih hbefore (by omega)).merge hfits
        (hdraws.exists_adj_of_strongest? hchoice hedge) _ _

theorem nodup_components_of_getElem?_levels
    (hlevel : (ofItems scores items).levels[k]? = some level)
    (hk : k + Nat.card graph.ConnectedComponent = items.length) :
    (level.map (Cluster.component graph)).Nodup := by
  have hconnected :=
    connected_of_getElem?_levels hdraws hitems hall hlevel hk.le
  have hpart := partitions_of_getElem?_levels hitems hall hlevel
  have hlength := length_of_getElem?_levels hlevel
  apply nodup_of_forall_mem (hconnected.mem_components hpart)
  rw [List.length_map]
  omega

/-- At the level with one cluster for each component, the member sets of the
clusters are the components. -/
theorem exists_members_eq_iff
    (hlevel : (ofItems scores items).levels[k]? = some level)
    (hk : k + Nat.card graph.ConnectedComponent = items.length)
    (classes : Set ι) :
    (∃ cluster ∈ level, {i | i ∈ cluster.members} = classes) ↔
      ∃ component : graph.ConnectedComponent, component.supp = classes := by
  have hpart := partitions_of_getElem?_levels hitems hall hlevel
  have hconnected :=
    connected_of_getElem?_levels hdraws hitems hall hlevel hk.le
  have hnodup :=
    nodup_components_of_getElem?_levels hdraws hitems hall hlevel hk
  have hsupp : ∀ cluster ∈ level, {i | i ∈ cluster.members} =
      (cluster.component graph).supp := by
    intro cluster hmem
    ext i
    exact hconnected.mem_members_iff hpart hnodup hmem i
  constructor
  · rintro ⟨cluster, hmem, rfl⟩
    exact ⟨cluster.component graph, (hsupp cluster hmem).symm⟩
  · rintro ⟨component, rfl⟩
    obtain ⟨cluster, hmem, rfl⟩ :=
      List.mem_map.mp (hconnected.mem_components hpart component)
    exact ⟨cluster, hmem, hsupp cluster hmem⟩

theorem apart_of_getElem?_levels
    (hlevel : (ofItems scores items).levels[k]? = some level)
    (hk : items.length ≤ k + Nat.card graph.ConnectedComponent) :
    level.Apart graph := by
  have hcard := card_component_le_length graph hall
  have hreached : ∀ {k level},
      (ofItems scores items).levels[k]? = some level →
      k + Nat.card graph.ConnectedComponent = items.length →
      level.Apart graph := by
    intro k level hlevel hk
    exact (connected_of_getElem?_levels hdraws hitems hall hlevel hk.le).apart
      (nodup_components_of_getElem?_levels hdraws hitems hall hlevel hk)
  induction k generalizing level with
  | zero => exact hreached hlevel (by omega)
  | succ k ih =>
      by_cases hfirst :
          k + 1 + Nat.card graph.ConnectedComponent = items.length
      · exact hreached hlevel hfirst
      · rw [getElem?_levels_succ] at hlevel
        obtain ⟨before, hbefore, hstep⟩ := Option.bind_eq_some_iff.mp hlevel
        obtain ⟨choice, -, hfits, -, rfl⟩ := Level.step?_cases hstep
        exact (ih hbefore (by omega)).merge hfits _ _

theorem coupling_of_getElem?_merges {step : Merge ι Float}
    (hstep : (ofItems scores items).merges[k]? = some step) :
    (k + Nat.card graph.ConnectedComponent < items.length →
      Score.lt Score.zero step.coupling = true) ∧
    (items.length ≤ k + Nat.card graph.ConnectedComponent →
      step.coupling = Score.zero) := by
  obtain ⟨level, _, choice, hlevel, -, hchoice, hcoupling, -⟩ :=
    exists_levels_of_getElem?_merges hstep
  rw [hcoupling]
  constructor
  · intro hk
    exact hdraws.zero_lt_coupling_of_strongest? hchoice
      (not_apart_of_getElem?_levels hitems hall hlevel hk)
  · intro hk
    exact hdraws.coupling_of_strongest?_eq_zero hchoice
      (apart_of_getElem?_levels hdraws hitems hall hlevel hk)

end

end Dendrogram

/-! ## Runs on named classes -/

theorem Coupling.zero_lt_between_iff (coupling : Coupling) (a b : String) :
    (0 : Float) < coupling.between a b ↔
      Double.IsSubstantial (coupling.between a b) := by
  constructor
  · intro hlt
    rcases coupling.between_eq_zero_or_isSubstantial a b with hzero | hpos
    · rw [hzero] at hlt
      exact absurd hlt (by decide)
    · exact hpos
  · intro hpos
    exact of_decide_eq_true (Double.lt_of_positiveFrom hpos)

/-- The positions of the names, with an edge between two classes that are
coupled. -/
def Coupling.graph (coupling : Coupling) (names : Array String) :
    SimpleGraph (Fin names.size) where
  Adj i j := (0 : Float) <
    coupling.between (names.toVector.get i) (names.toVector.get j)
  symm := by
    constructor
    intro i j hadj
    rwa [coupling.between_comm]
  loopless := by
    constructor
    intro i hadj
    rw [coupling.between_self] at hadj
    exact absurd hadj (by decide)

theorem Linkage.draws_graph (coupling : Coupling) (names : Array String) :
    Draws (Linkage.ofCoupling coupling names).score
      (coupling.graph names) := by
  constructor
  · intro i j hadj
    rw [Linkage.score_ofCoupling]
    exact (coupling.zero_lt_between_iff _ _).mp hadj
  · intro i j hadj
    rw [Linkage.score_ofCoupling]
    rcases coupling.between_eq_zero_or_isSubstantial names[i] names[j] with
      hzero | hpos
    · exact hzero
    · exact (hadj ((coupling.zero_lt_between_iff _ _).mpr hpos)).elim

/-- With `n` classes in `c` components the first `n - c` steps of a run merge
coupled clusters, all later steps merge clusters with coupling zero, and the
clusters of level `n - c` are the components. -/
theorem Clustering.run_joins_components (coupling : Coupling)
    (names : Array String) (hnames : 0 < names.size) :
    let dendrogram :=
      (Clustering.run coupling names : Clustering Float).dendrogram
    let graph := coupling.graph names
    let joins := names.size - Nat.card graph.ConnectedComponent
    joins + Nat.card graph.ConnectedComponent = names.size ∧
      joins ≤ dendrogram.merges.length ∧
      (∀ k step, dendrogram.merges[k]? = some step →
        (0 < step.coupling ↔ k < joins) ∧
          (joins ≤ k → step.coupling = 0)) ∧
      ∃ level, dendrogram.levels[joins]? = some level ∧
        ∀ classes : Set (Fin names.size),
          (∃ cluster ∈ level, {i | i ∈ cluster.members} = classes) ↔
            ∃ component : graph.ConnectedComponent,
              component.supp = classes := by
  intro dendrogram graph joins
  have hdraws : Draws (Linkage.ofCoupling coupling names).score graph :=
    Linkage.draws_graph coupling names
  have hitems := List.nodup_finRange names.size
  have hall : ∀ i, i ∈ List.finRange names.size := List.mem_finRange
  have hlength : (List.finRange names.size).length = names.size :=
    List.length_finRange
  have hcard := Dendrogram.card_component_le_length graph hall
  have hsome : 0 < Nat.card graph.ConnectedComponent := by
    have : Nonempty graph.ConnectedComponent :=
      ⟨graph.connectedComponentMk ⟨0, hnames⟩⟩
    exact Nat.card_pos
  have hsum : joins + Nat.card graph.ConnectedComponent = names.size := by
    omega
  refine ⟨hsum, ?_, ?_, ?_⟩
  · have hmerges : dendrogram.merges.length =
        (List.finRange names.size).length - 1 :=
      Dendrogram.length_merges _ _
    omega
  · intro k step hstep
    obtain ⟨hbefore, hafter⟩ :=
      Dendrogram.coupling_of_getElem?_merges hdraws hitems hall hstep
    have hlate : joins ≤ k → step.coupling = 0 := by
      intro hk
      exact hafter (by omega)
    refine ⟨⟨?_, ?_⟩, hlate⟩
    · intro hpos
      by_contra hk
      rw [hlate (by omega)] at hpos
      exact absurd hpos (by decide)
    · intro hk
      exact of_decide_eq_true (hbefore (by omega))
  · have hjoins : joins < (List.finRange names.size).length := by omega
    obtain ⟨level, hlevel⟩ := Dendrogram.exists_getElem?_levels
      (Linkage.ofCoupling coupling names : Linkage names.size Float).score
      hjoins
    exact ⟨level, hlevel, Dendrogram.exists_members_eq_iff hdraws hitems hall
      hlevel (by omega)⟩

theorem Clustering.run_joins_components_three_classes :
    ∃ coupling, Coupling.ofCounts? [(.of "A" "B", 1)] = some coupling ∧
      let names := #["A", "B", "C"]
      Nat.card (coupling.graph names).ConnectedComponent = 2 ∧
        ∃ level, (Clustering.run coupling names :
            Clustering Float).dendrogram.levels[1]? = some level ∧
          ∀ classes : Set (Fin names.size),
            (∃ cluster ∈ level, {i | i ∈ cluster.members} = classes) ↔
              ∃ component : (coupling.graph names).ConnectedComponent,
                component.supp = classes := by
  have hsigns : (Coupling.ofCounts? [(.of "A" "B", 1)]).any (fun coupling =>
      (Clustering.run coupling #["A", "B", "C"] :
        Clustering Float).dendrogram.merges.map
          (fun step => decide (0 < step.coupling)) == [true, false]) = true := by
    decide +kernel
  obtain ⟨coupling, hcoupling, hsigns⟩ := (Option.any_eq_true _ _).mp hsigns
  obtain ⟨hsum, -, hmerges, level, hlevel, hclasses⟩ :=
    run_joins_components coupling #["A", "B", "C"] (by decide)
  have hmap := beq_iff_eq.mp hsigns
  -- the first step has a positive coupling and the second one has not
  have hfirst := congrArg (·[0]?) hmap
  have hsecond := congrArg (·[1]?) hmap
  simp only [List.getElem?_map, List.getElem?_cons_zero,
    List.getElem?_cons_succ, Option.map_eq_some_iff] at hfirst hsecond
  obtain ⟨first, hfirst, hpos⟩ := hfirst
  obtain ⟨second, hsecond, hzero⟩ := hsecond
  have hsome := (hmerges 0 first hfirst).1.mp (of_decide_eq_true hpos)
  have hlast := mt (hmerges 1 second hsecond).1.mpr
    (of_decide_eq_false hzero)
  have hthree : (#["A", "B", "C"] : Array String).size = 3 := rfl
  have htwo : Nat.card (coupling.graph #["A", "B", "C"]).ConnectedComponent =
      2 := by
    omega
  rw [htwo] at hlevel
  exact ⟨coupling, hcoupling, htwo, level, hlevel, hclasses⟩

end ModuleRecovery
