import ModuleRecovery.Proofs.Dendrogram.Components
import Mathlib.Logic.Function.Defs

/-!
# Bystanders

A class that is coupled with none of the others stands by while they are merged.
Two runs are compared, one on the classes alone and one with the bystander among
them.  As long as the first run finds coupled clusters, both runs merge clusters
of the same names: a pair with the bystander has coupling zero, so it never
beats the strongest pair, and all other pairs keep their order.  The levels then
differ only by the bystander, a cluster of its own at some place.  Once the
first run finds no coupled clusters any more, neither does the second.
-/

namespace ModuleRecovery

variable {ι κ ν α : Type}

/-! ## Places past an inserted entry -/

/-- Where the entry at position `i` is found after an insertion. -/
def shiftPast (place i : ℕ) : ℕ :=
  if i < place then i else i + 1

theorem shiftPast_lt_shiftPast_iff (place i j : ℕ) :
    shiftPast place i < shiftPast place j ↔ i < j := by
  unfold shiftPast
  split <;> split <;> omega

theorem eq_or_exists_eq_shiftPast (place i : ℕ) :
    i = place ∨ ∃ p, i = shiftPast place p := by
  unfold shiftPast
  rcases Nat.lt_trichotomy i place with hlt | heq | hgt
  · exact .inr ⟨i, by rw [if_pos hlt]⟩
  · exact .inl heq
  · exact .inr ⟨i - 1, by rw [if_neg (by omega)]; omega⟩

theorem getElem?_insertIdx_shiftPast {β : Type} (list : List β) (x : β)
    (place i : ℕ) :
    (list.insertIdx place x)[shiftPast place i]? = list[i]? := by
  unfold shiftPast
  split
  · exact List.getElem?_insertIdx_of_lt (by assumption)
  · exact List.getElem?_insertIdx_of_gt (by omega)

/-- When an entry is taken out, the inserted one has some place among those that
are left, and what stood before the entry is found where it was. -/
theorem exists_eraseIdx_insertIdx {β : Type} {list : List β} {place i : ℕ}
    (hplace : place ≤ list.length) (hi : i < list.length) (x : β) :
    ∃ place', place' ≤ (list.eraseIdx i).length ∧
      (list.insertIdx place x).eraseIdx (shiftPast place i) =
        (list.eraseIdx i).insertIdx place' x ∧
      ∀ p < i, shiftPast place p = shiftPast place' p := by
  have hlength := List.length_eraseIdx_of_lt hi
  by_cases hlt : i < place
  · refine ⟨place - 1, by omega, ?_, ?_⟩
    · rw [shiftPast, if_pos hlt, List.insertIdx_eraseIdx_of_ge hi (by omega),
        Nat.sub_add_cancel (by omega)]
    · intro p hp
      rw [shiftPast, shiftPast, if_pos (by omega), if_pos (by omega)]
  · refine ⟨place, by omega, ?_, fun _ _ => rfl⟩
    rw [shiftPast, if_neg hlt, List.insertIdx_eraseIdx_of_le hi (by omega)]

theorem insertIdx_append {β : Type} {list : List β} {place : ℕ}
    (hplace : place ≤ list.length) (x : β) (rest : List β) :
    (list ++ rest).insertIdx place x = list.insertIdx place x ++ rest := by
  induction list generalizing place with
  | nil =>
      obtain rfl := Nat.le_zero.mp hplace
      rfl
  | cons first list ih =>
      cases place with
      | zero => rfl
      | succ place =>
          simp [ih (Nat.le_of_succ_le_succ hplace)]

/-! ## Merges told by names -/

/-- What a step of a clustering joins, and how strongly it is coupled. -/
structure Join (ν α : Type) where
  left : List ν
  right : List ν
  coupling : α

def Cluster.labels (name : ι → ν) (cluster : Cluster ι α) : List ν :=
  cluster.members.map name

def Choice.join (name : ι → ν) (choice : Choice ι α) : Join ν α :=
  ⟨choice.left.labels name, choice.right.labels name, choice.coupling⟩

def Merge.join (name : ι → ν) (step : Merge ι α) : Join ν α :=
  ⟨step.left.labels name, step.right.labels name, step.coupling⟩

def Join.isCoupled [Score α] (join : Join ν α) : Bool :=
  Score.lt Score.zero join.coupling

/-- The step that leads to a level, by names. -/
def Level.join? (name : ι → ν) (level : Level ι α) : Option (Join ν α) :=
  (Merge.ofLevel? level 0).map (Merge.join name)

/-- What is joined from a level on, as far as it is coupled. -/
def Level.joins [Score α] (scores : ι → ι → α) (name : ι → ν) (id : ℕ)
    (level : Level ι α) : List (Join ν α) :=
  ((level.grow scores id).filterMap (Level.join? name)).filter Join.isCoupled

theorem Level.map_join_ofLevel? (name : ι → ν) (level : Level ι α)
    (index : ℕ) :
    (Merge.ofLevel? level index).map (Merge.join name) = level.join? name := by
  unfold Level.join? Merge.ofLevel?
  split <;> rfl

theorem Level.join?_apply (name : ι → ν) (level : Level ι α) (id : ℕ)
    (choice : Choice ι α) :
    (level.apply id choice).join? name = some (choice.join name) := by
  simp [Level.join?, Merge.ofLevel?, Level.apply, Merge.join, Choice.join]

theorem Level.map_labels_ofItems (items : List ι) (name : ι → ν) :
    (Level.ofItems items : Level ι α).map (Cluster.labels name) =
      (items.map name).map fun label => [label] := by
  calc
    (Level.ofItems items : Level ι α).map (Cluster.labels name) =
        ((Level.ofItems items : Level ι α).map Cluster.members).map
          (List.map name) := by
      rw [List.map_map]
      rfl
    _ = (items.map name).map fun label => [label] := by
      simp [Level.map_members_ofItems]

theorem Level.map_labels_apply (name : ι → ν) (level : Level ι α) (id : ℕ)
    (choice : Choice ι α) :
    (level.apply id choice).map (Cluster.labels name) =
      ((level.map (Cluster.labels name)).eraseIdx choice.rightPosition).eraseIdx
          choice.leftPosition ++
        [choice.left.labels name ++ choice.right.labels name] := by
  simp [Level.apply, List.eraseIdx_map, Cluster.labels, Cluster.members]

section

variable [Score α] {scores : ι → ι → α} {level : Level ι α}

theorem Level.joins_of_length_le_one (h : level.length ≤ 1) (name : ι → ν)
    (id : ℕ) : level.joins scores name id = [] := by
  have hstep := (Level.step?_eq_none_iff scores id level).mpr h
  have hgrow : level.grow scores id = [] := by
    rw [Level.grow]
    split <;> simp_all
  rw [Level.joins, hgrow]
  rfl

theorem Level.exists_strongest? (scores : ι → ι → α)
    (h : 1 < level.length) :
    ∃ choice, level.strongest? scores = some choice := by
  cases hchoice : level.strongest? scores with
  | some choice => exact ⟨choice, rfl⟩
  | none =>
      have hstep : level.step? scores 0 = none := by
        rw [Level.step?, hchoice, Option.map_none]
      rw [Level.step?_eq_none_iff] at hstep
      omega

theorem Level.joins_of_strongest? {choice : Choice ι α}
    (hchoice : level.strongest? scores = some choice) (name : ι → ν) (id : ℕ) :
    level.joins scores name id =
      [choice.join name].filter Join.isCoupled ++
        (level.apply id choice).joins scores name (id + 1) := by
  have hstep : level.step? scores id = some (level.apply id choice) := by
    rw [Level.step?, hchoice, Option.map_some]
  have hgrow : level.grow scores id = level.apply id choice ::
      (level.apply id choice).grow scores (id + 1) := by
    rw [Level.grow]
    split <;> simp_all
  rw [Level.joins, hgrow,
    List.filterMap_cons_some (Level.join?_apply name level id choice),
    ← List.singleton_append, List.filter_append]
  rfl

theorem Dendrogram.filter_map_join_merges (scores : ι → ι → α)
    (items : List ι) (name : ι → ν) :
    ((ofItems scores items).merges.map (Merge.join name)).filter
        Join.isCoupled =
      (Level.ofItems items).joins scores name items.length := by
  by_cases hitems : items = []
  · subst hitems
    rw [Level.joins_of_length_le_one (by simp)]
    rfl
  · rw [merges, levels_ofItems scores hitems, List.zipIdx_cons,
      List.drop_one, List.tail_cons, List.map_filterMap]
    simp only [Level.map_join_ofLevel?]
    rw [Level.joins]
    congr 1
    generalize (Level.ofItems items : Level ι α).grow scores items.length =
      levels
    calc
      (levels.zipIdx 1).filterMap (fun entry => entry.1.join? name) =
          ((levels.zipIdx 1).map Prod.fst).filterMap (Level.join? name) := by
        rw [List.filterMap_map]
        rfl
      _ = levels.filterMap (Level.join? name) := by
        rw [List.zipIdx_map_fst]

end

/-- A run joins nothing coupled after its clusters have come apart. -/
theorem Draws.joins_of_apart {scores : ι → ι → Float} {graph : SimpleGraph ι}
    (h : Draws scores graph) {level : Level ι Float}
    (hapart : level.Apart graph) (name : ι → ν) (id : ℕ) :
    level.joins scores name id = [] := by
  induction id, level using Level.grow.induct scores with
  | case1 id level hstep =>
      exact Level.joins_of_length_le_one
        ((Level.step?_eq_none_iff scores id level).mp hstep) name id
  | case2 id level next hstep ih =>
      obtain ⟨choice, hchoice, rfl⟩ := Option.map_eq_some_iff.mp hstep
      have hzero := h.coupling_of_strongest?_eq_zero hchoice hapart
      have huncoupled : (choice.join name).isCoupled = false := by
        rw [Join.isCoupled, Choice.join, hzero]
        exact Bool.eq_false_iff.mpr (Double.weakOrder_isNumber.irrefl _
          Double.isMagnitude_zero.isNumber)
      rw [Level.joins_of_strongest? hchoice, ih
        (hapart.merge (Level.fitsLevel_of_strongest? hchoice) _ _),
        List.filter_singleton, huncoupled]
      rfl

/-! ## Levels with a bystander -/

theorem Cluster.average_onFun [Score α] (score : ν → ν → α) (name : ι → ν)
    (a b : Cluster ι α) :
    a.average (Function.onFun score name) b =
      Score.mean ((a.labels name).flatMap fun x => (b.labels name).map (score x))
        ((a.labels name).length * (b.labels name).length) := by
  simp [Cluster.average, Cluster.labels, List.flatMap_map, Function.comp_def]

theorem Cluster.average_onFun_congr [Score α] (score : ν → ν → α)
    {name : ι → ν} {wideName : κ → ν} {a b : Cluster ι α} {c d : Cluster κ α}
    (hac : c.labels wideName = a.labels name)
    (hbd : d.labels wideName = b.labels name) :
    c.average (Function.onFun score wideName) d =
      a.average (Function.onFun score name) b := by
  rw [average_onFun, average_onFun, hac, hbd]

theorem Cluster.average_onFun_eq_zero {score : ν → ν → Float} {name : ι → ν}
    {a b : Cluster ι Float}
    (h : ∀ x ∈ a.labels name, ∀ y ∈ b.labels name, score x y = Score.zero) :
    a.average (Function.onFun score name) b = Score.zero :=
  Cluster.average_eq_zero fun _ hi _ hj =>
    h _ (List.mem_map_of_mem hi) _ (List.mem_map_of_mem hj)

/-- The names all score zero with the bystander. -/
structure StandsBy [Score α] (score : ν → ν → α) (bystander : ν)
    (name : ι → ν) : Prop where
  left : ∀ i, score bystander (name i) = Score.zero
  right : ∀ i, score (name i) bystander = Score.zero

namespace StandsBy

variable {score : ν → ν → Float} {bystander : ν} {name : ι → ν}
  {wideName : κ → ν} {a : Cluster ι Float} {c d : Cluster κ Float}

theorem average_left_eq_zero (h : StandsBy score bystander name)
    (hc : c.labels wideName = [bystander])
    (hd : d.labels wideName = a.labels name) :
    c.average (Function.onFun score wideName) d = Score.zero := by
  apply Cluster.average_onFun_eq_zero
  rw [hc, hd]
  intro x hx y hy
  obtain rfl := List.mem_singleton.mp hx
  obtain ⟨i, -, rfl⟩ := List.mem_map.mp hy
  exact h.left i

theorem average_right_eq_zero (h : StandsBy score bystander name)
    (hc : c.labels wideName = a.labels name)
    (hd : d.labels wideName = [bystander]) :
    c.average (Function.onFun score wideName) d = Score.zero := by
  apply Cluster.average_onFun_eq_zero
  rw [hc, hd]
  intro x hx y hy
  obtain ⟨i, -, rfl⟩ := List.mem_map.mp hx
  obtain rfl := List.mem_singleton.mp hy
  exact h.right i

end StandsBy

/-- By their names, the clusters of the second level are those of the first and
the bystander alone at the given place. -/
structure Level.Admits (name : ι → ν) (wideName : κ → ν) (bystander : ν)
    (place : ℕ) (level : Level ι α) (wide : Level κ α) : Prop where
  place_le : place ≤ level.length
  labels_eq : wide.map (Cluster.labels wideName) =
    (level.map (Cluster.labels name)).insertIdx place [bystander]

namespace Level.Admits

section

variable {name : ι → ν} {wideName : κ → ν} {bystander : ν} {place : ℕ}
  {level : Level ι α} {wide : Level κ α}

theorem ofItems {items : List ι} {wideItems : List κ}
    (hplace : place ≤ items.length)
    (hitems : wideItems.map wideName =
      (items.map name).insertIdx place bystander) :
    Admits name wideName bystander place
      (Level.ofItems items : Level ι α) (Level.ofItems wideItems) := by
  constructor
  · simpa using hplace
  · rw [map_labels_ofItems, map_labels_ofItems, hitems, List.map_insertIdx]

theorem length_eq (h : Admits name wideName bystander place level wide) :
    wide.length = level.length + 1 := by
  have hlength := congrArg List.length h.labels_eq
  rwa [List.length_map, List.length_insertIdx_of_le_length
    (by simpa using h.place_le), List.length_map] at hlength

theorem getElem?_shiftPast
    (h : Admits name wideName bystander place level wide) (i : ℕ) :
    wide[shiftPast place i]?.map (Cluster.labels wideName) =
      level[i]?.map (Cluster.labels name) := by
  rw [← List.getElem?_map, h.labels_eq, getElem?_insertIdx_shiftPast,
    List.getElem?_map]

theorem labels_eq_of_getElem?
    (h : Admits name wideName bystander place level wide) {i : ℕ}
    {a : Cluster ι α} {b : Cluster κ α} (ha : level[i]? = some a)
    (hb : wide[shiftPast place i]? = some b) :
    b.labels wideName = a.labels name := by
  have hsame := h.getElem?_shiftPast i
  rw [ha, hb] at hsame
  exact Option.some.inj hsame

theorem exists_getElem?_wide
    (h : Admits name wideName bystander place level wide) {i : ℕ}
    {a : Cluster ι α} (ha : level[i]? = some a) :
    ∃ b, wide[shiftPast place i]? = some b ∧
      b.labels wideName = a.labels name := by
  have hsame := h.getElem?_shiftPast i
  rw [ha] at hsame
  exact Option.map_eq_some_iff.mp hsame

/-- A cluster of the wider level is the bystander or has the names of a cluster
of the narrower one. -/
theorem cases_of_getElem?_wide
    (h : Admits name wideName bystander place level wide) {i : ℕ}
    {b : Cluster κ α} (hb : wide[i]? = some b) :
    i = place ∧ b.labels wideName = [bystander] ∨
      ∃ p a, i = shiftPast place p ∧ level[p]? = some a ∧
        b.labels wideName = a.labels name := by
  rcases eq_or_exists_eq_shiftPast place i with rfl | ⟨p, rfl⟩
  · left
    refine ⟨rfl, ?_⟩
    have hsame := congrArg (·[i]?) h.labels_eq
    simpa [hb, List.getElem?_insertIdx_self, h.place_le] using hsame
  · right
    have hsame := h.getElem?_shiftPast p
    rw [hb] at hsame
    obtain ⟨a, ha, hlabels⟩ := Option.map_eq_some_iff.mp hsame.symm
    exact ⟨p, a, rfl, ha, hlabels.symm⟩

theorem labels_eq_of_fitsLevel
    (h : Admits name wideName bystander place level wide)
    {choice : Choice ι α} {other : Choice κ α}
    (hfits : choice.FitsLevel level) (hother : other.FitsLevel wide)
    (hleft : other.leftPosition = shiftPast place choice.leftPosition)
    (hright : other.rightPosition = shiftPast place choice.rightPosition) :
    other.left.labels wideName = choice.left.labels name ∧
      other.right.labels wideName = choice.right.labels name :=
  ⟨h.labels_eq_of_getElem? hfits.left (hleft ▸ hother.left),
    h.labels_eq_of_getElem? hfits.right (hright ▸ hother.right)⟩

/-- Merging clusters of the same names on both levels leaves the bystander
alone. -/
theorem apply (h : Admits name wideName bystander place level wide)
    {choice : Choice ι α} {other : Choice κ α}
    (hfits : choice.FitsLevel level) (hother : other.FitsLevel wide)
    (hleft : other.leftPosition = shiftPast place choice.leftPosition)
    (hright : other.rightPosition = shiftPast place choice.rightPosition)
    (id wideId : ℕ) :
    ∃ place', Admits name wideName bystander place'
      (level.apply id choice) (wide.apply wideId other) := by
  obtain ⟨hlabelsLeft, hlabelsRight⟩ :=
    h.labels_eq_of_fitsLevel hfits hother hleft hright
  have hordered := hfits.ordered
  have hbound := (List.getElem?_eq_some_iff.mp hfits.right).1
  let labels := level.map (Cluster.labels name)
  have hlength : labels.length = level.length := List.length_map _
  have hshort := List.length_eraseIdx_of_lt (hlength.symm ▸ hbound)
  obtain ⟨place₁, hplace₁, herase₁, hshift⟩ := exists_eraseIdx_insertIdx
    (hlength.symm ▸ h.place_le) (hlength.symm ▸ hbound) [bystander]
  obtain ⟨place₂, hplace₂, herase₂, -⟩ := exists_eraseIdx_insertIdx
    hplace₁ (show choice.leftPosition < _ by omega) [bystander]
  refine ⟨place₂, ?_, ?_⟩
  · rw [← List.length_map (Cluster.labels name), map_labels_apply,
      List.length_append]
    exact hplace₂.trans (Nat.le_add_right _ _)
  · rw [map_labels_apply, map_labels_apply, h.labels_eq, hleft, hright,
      hlabelsLeft, hlabelsRight, herase₁, hshift _ hordered, herase₂,
      insertIdx_append hplace₂]

end

/-! ### The strongest pair -/

variable {score : ν → ν → Float} {name : ι → ν} {wideName : κ → ν}
  {bystander : ν} {place : ℕ} {level : Level ι Float} {wide : Level κ Float}

/-- A pair of the wider level is uncoupled, or it has the coupling of a pair of
the narrower level. -/
theorem average_cases (h : Admits name wideName bystander place level wide)
    (hzero : StandsBy score bystander name) {p q : ℕ}
    {c d : Cluster κ Float} (hpq : p < q) (hc : wide[p]? = some c)
    (hd : wide[q]? = some d) :
    c.average (Function.onFun score wideName) d = Score.zero ∨
      ∃ i j a b, p = shiftPast place i ∧ q = shiftPast place j ∧
        level[i]? = some a ∧ level[j]? = some b ∧
        c.average (Function.onFun score wideName) d =
          a.average (Function.onFun score name) b := by
  rcases h.cases_of_getElem?_wide hc with ⟨rfl, hcOnly⟩ | ⟨i, a, rfl, ha, hac⟩
  · rcases h.cases_of_getElem?_wide hd with ⟨rfl, -⟩ | ⟨j, b, -, -, hbd⟩
    · exact (lt_irrefl _ hpq).elim
    · exact .inl (hzero.average_left_eq_zero hcOnly hbd)
  · rcases h.cases_of_getElem?_wide hd with ⟨rfl, hdOnly⟩ | ⟨j, b, rfl, hb, hbd⟩
    · exact .inl (hzero.average_right_eq_zero hac hdOnly)
    · exact .inr ⟨i, j, a, b, rfl, rfl, ha, hb,
        Cluster.average_onFun_congr score hac hbd⟩

/-- The strongest pair of the narrower level is also the strongest of the wider
one, if it is coupled at all. -/
theorem firstStrongest (h : Admits name wideName bystander place level wide)
    (hzero : StandsBy score bystander name) {i j : ℕ} {best : Float}
    (hbest : level.FirstStrongest
      (Cluster.average (Function.onFun score name)) i j best)
    (hnumber : Double.IsNumber best)
    (hpos : Score.lt Score.zero best = true) :
    wide.FirstStrongest (Cluster.average (Function.onFun score wideName))
      (shiftPast place i) (shiftPast place j) best := by
  constructor
  · obtain ⟨a, b, hij, ha, hb, rfl⟩ := hbest.attained
    obtain ⟨c, hc, hac⟩ := h.exists_getElem?_wide ha
    obtain ⟨d, hd, hbd⟩ := h.exists_getElem?_wide hb
    exact ⟨c, d, (shiftPast_lt_shiftPast_iff place i j).mpr hij, hc, hd,
      (Cluster.average_onFun_congr score hac hbd).symm⟩
  · intro p q c d hpq hc hd
    rcases h.average_cases hzero hpq hc hd with
      heq | ⟨p', q', a, b, rfl, rfl, ha, hb, heq⟩
    · rw [heq]
      intro hlt
      exact Double.weakOrder_isNumber.irrefl _ hnumber
        (Double.weakOrder_isNumber.trans _ _ _ hnumber
          Double.isMagnitude_zero.isNumber hnumber hlt hpos)
    · rw [heq]
      exact hbest.greatest p' q' a b
        ((shiftPast_lt_shiftPast_iff place p' q').mp hpq) ha hb
  · intro p q c d hpq hc hd hearlier
    rcases h.average_cases hzero hpq hc hd with
      heq | ⟨p', q', a, b, rfl, rfl, ha, hb, heq⟩
    · rwa [heq]
    · rw [heq]
      have hp := shiftPast_lt_shiftPast_iff place p' i
      have hi := shiftPast_lt_shiftPast_iff place i p'
      have hq := shiftPast_lt_shiftPast_iff place q' j
      exact hbest.first p' q' a b
        ((shiftPast_lt_shiftPast_iff place p' q').mp hpq) ha hb (by omega)

section

variable {graph : SimpleGraph ι} {wideGraph : SimpleGraph κ}
  (hdraws : Draws (Function.onFun score name) graph)
  (hwide : Draws (Function.onFun score wideName) wideGraph)
  (hzero : StandsBy score bystander name)

include hdraws hwide hzero

theorem apart (h : Admits name wideName bystander place level wide)
    (hapart : level.Apart graph) : wide.Apart wideGraph := by
  refine List.pairwise_iff_getElem.mpr ?_
  intro p q hp hq hpq i hi j hj hadj
  have hpos := Cluster.zero_lt_average hwide.zero_or_isSubstantial hi hj
    (hwide.edge i j hadj)
  have hself := Double.weakOrder_isNumber.irrefl _
    Double.isMagnitude_zero.isNumber
  rcases h.average_cases hzero hpq (List.getElem?_eq_getElem hp)
      (List.getElem?_eq_getElem hq) with
    heq | ⟨p', q', a, b, rfl, rfl, ha, hb, heq⟩
  · rw [heq] at hpos
    exact hself hpos
  · have hfits : Choice.FitsLevel ⟨p', q', a, b, Score.zero⟩ level :=
      ⟨(shiftPast_lt_shiftPast_iff place p' q').mp hpq, ha, hb⟩
    rw [heq, hdraws.average_eq_zero (hapart.left_right hfits)] at hpos
    exact hself hpos

/-- As long as the narrower level has coupled clusters, both levels merge
clusters of the same names, and the bystander stays. -/
theorem step (h : Admits name wideName bystander place level wide)
    (hapart : ¬ level.Apart graph) {choice : Choice ι Float}
    (hchoice : level.strongest? (Function.onFun score name) = some choice)
    (id wideId : ℕ) :
    ∃ other place',
      wide.strongest? (Function.onFun score wideName) = some other ∧
      other.join wideName = choice.join name ∧
      Admits name wideName bystander place'
        (level.apply id choice) (wide.apply wideId other) := by
  have hfits := Level.fitsLevel_of_strongest? hchoice
  have hfirst := Level.firstStrongest_of_strongest? Double.weakOrder_isNumber
    hdraws.isNumber_average hchoice
  have hpos := hdraws.zero_lt_coupling_of_strongest? hchoice hapart
  have hcoupling := Level.coupling_of_mem_choices
    (Level.mem_choices_of_strongest? hchoice)
  have hnumber : Double.IsNumber choice.coupling := by
    rw [hcoupling]
    exact hdraws.isNumber_average _ _
  have hlong : 1 < wide.length := by
    have hright := (List.getElem?_eq_some_iff.mp hfits.right).1
    have hordered := hfits.ordered
    have hlength := h.length_eq
    omega
  obtain ⟨other, hother⟩ :=
    Level.exists_strongest? (Function.onFun score wideName) hlong
  have hotherFits := Level.fitsLevel_of_strongest? hother
  -- the first strongest pair is unique, so it is the one the search finds
  obtain ⟨hleft, hright⟩ := (h.firstStrongest hzero hfirst hnumber hpos).unique
    (Level.firstStrongest_of_strongest? Double.weakOrder_isNumber
      hwide.isNumber_average hother)
  obtain ⟨hlabelsLeft, hlabelsRight⟩ :=
    h.labels_eq_of_fitsLevel hfits hotherFits hleft hright
  have hsame : other.coupling = choice.coupling := by
    rw [hcoupling, Level.coupling_of_mem_choices
      (Level.mem_choices_of_strongest? hother)]
    exact Cluster.average_onFun_congr score hlabelsLeft hlabelsRight
  obtain ⟨place', hnext⟩ := h.apply hfits hotherFits hleft hright id wideId
  refine ⟨other, place', hother, ?_, hnext⟩
  rw [Choice.join, Choice.join, hlabelsLeft, hlabelsRight, hsame]

/-- From two such levels on, the runs join the same coupled clusters. -/
theorem joins_eq (h : Admits name wideName bystander place level wide)
    (id wideId : ℕ) :
    wide.joins (Function.onFun score wideName) wideName wideId =
      level.joins (Function.onFun score name) name id := by
  -- the narrower run leads: the wider one still has a step when it is over
  induction id, level using Level.grow.induct (Function.onFun score name)
    generalizing wide place wideId with
  | case1 id level hstep =>
      have hapart := Level.apart_of_length_le_one graph
        ((Level.step?_eq_none_iff _ _ _).mp hstep)
      rw [hdraws.joins_of_apart hapart,
        hwide.joins_of_apart (h.apart hdraws hwide hzero hapart)]
  | case2 id level next hstep ih =>
      by_cases hapart : level.Apart graph
      · rw [hdraws.joins_of_apart hapart,
          hwide.joins_of_apart (h.apart hdraws hwide hzero hapart)]
      · obtain ⟨choice, hchoice, rfl⟩ := Option.map_eq_some_iff.mp hstep
        obtain ⟨other, place', hother, hjoin, hnext⟩ :=
          h.step hdraws hwide hzero hapart hchoice id wideId
        rw [Level.joins_of_strongest? hchoice, Level.joins_of_strongest? hother,
          hjoin, ih hnext]

end

end Level.Admits

/-! ## Runs on named classes -/

theorem Linkage.score_ofCoupling_eq_onFun [Score α] (coupling : Coupling)
    (names : Array String) :
    (Linkage.ofCoupling coupling names : Linkage names.size α).score =
      Function.onFun coupling.between names.toVector.get := by
  funext i j
  exact Linkage.score_ofCoupling coupling names i j

theorem Coupling.draws_graph (coupling : Coupling) (names : Array String) :
    Draws (Function.onFun coupling.between names.toVector.get)
      (coupling.graph names) := by
  rw [← Linkage.score_ofCoupling_eq_onFun]
  exact Linkage.draws_graph coupling names

theorem map_get_finRange_size (names : Array String) :
    (List.finRange names.size).map names.toVector.get = names.toList :=
  List.map_get_finRange names.toList

namespace Clustering

/-- The merges of coupled clusters, in the order they are made, with the class
names of the two parts. -/
def coupledJoins (clustering : Clustering Float) : List (Join String Float) :=
  (clustering.dendrogram.merges.filter fun step => 0 < step.coupling).map
    fun step => ⟨clustering.classNames step.left,
      clustering.classNames step.right, step.coupling⟩

theorem coupledJoins_run (coupling : Coupling) (names : Array String) :
    (run coupling names).coupledJoins =
      (Level.ofItems (List.finRange names.size)).joins
        (Function.onFun coupling.between names.toVector.get)
        names.toVector.get (List.finRange names.size).length := by
  rw [← Dendrogram.filter_map_join_merges, List.filter_map,
    ← Linkage.score_ofCoupling_eq_onFun]
  rfl

/-- A class that is coupled with none of the others may be added anywhere: the
coupled clusters are merged as before. -/
theorem run_ignores_bystander (coupling : Coupling) (names : Array String)
    (bystander : String)
    (huncoupled : ∀ name ∈ names,
      (coupling.between bystander name : Float) = 0)
    (place : ℕ) (hplace : place ≤ names.size) :
    (run coupling (names.insertIdx place bystander hplace)).coupledJoins =
      (run coupling names).coupledJoins := by
  have hzero : StandsBy (α := Float) coupling.between bystander
      names.toVector.get := by
    have hleft : ∀ i, coupling.between bystander (names.toVector.get i) =
        (Score.zero : Float) :=
      fun i => huncoupled _ (Array.getElem_mem i.isLt)
    refine ⟨hleft, ?_⟩
    intro i
    rw [coupling.between_comm]
    exact hleft i
  let wide := names.insertIdx place bystander hplace
  have hstart : Level.Admits names.toVector.get wide.toVector.get bystander
      place (Level.ofItems (List.finRange names.size) : Level _ Float)
      (Level.ofItems (List.finRange wide.size)) := by
    apply Level.Admits.ofItems
    · simpa using hplace
    · rw [map_get_finRange_size, map_get_finRange_size,
        Array.toList_insertIdx]
  rw [coupledJoins_run, coupledJoins_run]
  exact hstart.joins_eq (coupling.draws_graph _) (coupling.draws_graph _)
    hzero _ _

/-- `Z` between `A` and `B` does not keep them from being merged first, nor `C`
from being merged with them next. -/
theorem run_ignores_bystander_three_classes :
    let names := #["A", "B", "C"]
    ∃ coupling, Coupling.ofCounts? [(.of "A" "B", 3), (.of "B" "C", 1)] =
        some coupling ∧
      (∀ name ∈ names, (coupling.between "Z" name : Float) = 0) ∧
      (run coupling names).coupledJoins.map
        (fun join => (join.left, join.right)) =
          [(["A"], ["B"]), (["C"], ["A", "B"])] ∧
      (run coupling #["A", "Z", "B", "C"]).coupledJoins =
        (run coupling names).coupledJoins := by
  intro names
  have hrun : (Coupling.ofCounts? [(.of "A" "B", 3), (.of "B" "C", 1)]).any
      (fun coupling =>
        names.all (fun name =>
          decide ((coupling.between "Z" name : Float) = 0)) &&
        (run coupling names).coupledJoins.map
          (fun join => (join.left, join.right)) ==
            [(["A"], ["B"]), (["C"], ["A", "B"])]) = true := by
    decide +kernel
  obtain ⟨coupling, hcoupling, hrun⟩ := (Option.any_eq_true _ _).mp hrun
  obtain ⟨hall, hjoins⟩ := (Bool.and_eq_true _ _).mp hrun
  have huncoupled : ∀ name ∈ names,
      (coupling.between "Z" name : Float) = 0 := by
    intro name hname
    obtain ⟨i, hi, rfl⟩ := Array.mem_iff_getElem.mp hname
    exact of_decide_eq_true (Array.all_eq_true.mp hall i hi)
  have hinsert : names.insertIdx 1 "Z" (by decide) = #["A", "Z", "B", "C"] :=
    Array.toList_inj.mp (Array.toList_insertIdx (by decide))
  refine ⟨coupling, hcoupling, huncoupled, beq_iff_eq.mp hjoins, ?_⟩
  rw [← hinsert]
  exact run_ignores_bystander coupling names "Z" huncoupled 1 (by decide)

end Clustering

end ModuleRecovery
