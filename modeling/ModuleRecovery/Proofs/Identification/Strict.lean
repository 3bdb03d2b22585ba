import ModuleRecovery.Identification
import ModuleRecovery.Proofs.Dendrogram.Partition
import ModuleRecovery.Proofs.Lists

/-!
# Strict readings of a clustering

A reading may pass over what is not there: a level that does not end in a merge,
a last level that is not one cluster.  The readings of this module are strict.
They address tables and names by bare positions, check every position, every
subtraction and every assumption on the shape of a dendrogram, and give nothing
as soon as one check fails.

On the clustering of named classes no check fails, and the strict readings give
what the plain ones give.
-/

namespace ModuleRecovery

theorem mapM_ofFn_some {β : Type} {n : Nat} (g : Fin n → β) :
    (Vector.ofFn fun i : Fin n => i).mapM (fun i => some (g i)) =
      some (Vector.ofFn g) := by
  have hmap : (Vector.ofFn fun i : Fin n => i).map g = Vector.ofFn g := by
    ext i hi
    simp
  rw [← hmap]
  exact Vector.mapM_pure g

/-- All pairs of entries, the earlier one first, looked up by their positions. -/
def strictOrderedPairs? {β : Type} (list : List β) : Option (List (β × β)) :=
  (orderedPairs (List.range list.length)).mapM fun positions => do
    let first ← list[positions.1]?
    let second ← list[positions.2]?
    return (first, second)

theorem strictOrderedPairs?_eq {β : Type} (list : List β) :
    strictOrderedPairs? list = some (orderedPairs list) := by
  have hlist : (List.finRange list.length).map list.get = list :=
    List.map_get_finRange list
  have hpositions : List.range list.length =
      (List.finRange list.length).map Fin.val :=
    List.map_coe_finRange_eq_range.symm
  unfold strictOrderedPairs?
  rw [hpositions, orderedPairs_map, List.mapM_map]
  conv_rhs => rw [← hlist, orderedPairs_map]
  refine mapM_eq_some_map fun positions _ => ?_
  simp [Prod.map]

/-! ## Tables -/

section Tables

variable {n : Nat} {α : Type} [Score α]

/-- The cell at two positions, if the table has it. -/
def Linkage.cell? (linkage : Linkage n α) (x y : Nat) : Option α := do
  let row ← linkage.table.toArray[x]?
  row.toArray[y]?

/-- The table made of the rows of scores, if these are long enough. -/
def Linkage.strictOfCoupling? (coupling : Coupling) (names : Array String) :
    Option (Linkage names.size α) :=
  ofRows? names.size
    ((coupling.table names.toList).map List.toArray).toArray

/-- The mean of the cells at the positions of two clusters. -/
def Cluster.strictAverage? (linkage : Linkage n α) (a b : Cluster (Fin n) α) :
    Option α := do
  let cells ← a.members.mapM fun x =>
    b.members.mapM fun y => linkage.cell? x.val y.val
  return Score.mean cells.flatten (a.members.length * b.members.length)

omit [Score α] in
theorem Linkage.cell?_val (linkage : Linkage n α) (i j : Fin n) :
    linkage.cell? i.val j.val = some (linkage.score i j) := by
  simp [cell?, score]

theorem Linkage.strictOfCoupling?_eq (coupling : Coupling)
    (names : Array String) :
    (strictOfCoupling? coupling names : Option (Linkage names.size α)) =
      some (ofCoupling coupling names) := by
  unfold strictOfCoupling? ofRows? Coupling.table
  simp [mapM_ofFn_some, ofCoupling, ofFn]

theorem Cluster.strictAverage?_eq (linkage : Linkage n α)
    (a b : Cluster (Fin n) α) :
    a.strictAverage? linkage b = some (a.average linkage.score b) := by
  have hcells : ∀ x ∈ a.members,
      (b.members.mapM fun y => linkage.cell? x.val y.val) =
        some (b.members.map (linkage.score x)) := by
    intro x _
    exact mapM_eq_some_map fun y _ => linkage.cell?_val x y
  unfold strictAverage? average
  rw [mapM_eq_some_map hcells]
  simp only [List.flatMap_def]
  rfl

end Tables

/-! ## Growing a dendrogram -/

section Growth

variable {n : Nat} {α : Type} [Score α]

def Level.strictChoices? (linkage : Linkage n α) (level : Level (Fin n) α) :
    Option (List (Choice (Fin n) α)) := do
  let pairs ← strictOrderedPairs? level.zipIdx
  pairs.mapM fun pair => do
    let coupling ← pair.1.1.strictAverage? linkage pair.2.1
    return ⟨pair.1.2, pair.2.2, pair.1.1, pair.2.1, coupling⟩

/-- The level after a choice, whose clusters are looked up by their positions. -/
def Level.strictApply? {ι : Type} (level : Level ι α) (id : Nat)
    (choice : Choice ι α) : Option (Level ι α) := do
  let left ← level[choice.leftPosition]?
  let right ← level[choice.rightPosition]?
  return level.apply id { choice with left, right }

/-- One step; a level without two clusters has none. -/
def Level.strictStep? (linkage : Linkage n α) (id : Nat)
    (level : Level (Fin n) α) : Option (Level (Fin n) α) := do
  match ← level.strictChoices? linkage with
  | [] => none
  | first :: more => level.strictApply? id (more.foldl Choice.stronger first)

/-- The levels after the given one until one cluster is left, in a bounded number
of rounds. -/
def Level.strictGrow? (linkage : Linkage n α) (rounds id : Nat)
    (level : Level (Fin n) α) : Option (List (Level (Fin n) α)) :=
  if level.length ≤ 1 then some []
  else
    match rounds with
    | 0 => none
    | rounds + 1 => do
      let next ← level.strictStep? linkage id
      let later ← next.strictGrow? linkage rounds (id + 1)
      return next :: later

omit [Score α] in
theorem Level.strictApply?_eq {ι : Type} {level : Level ι α}
    {choice : Choice ι α} (h : choice.FitsLevel level) (id : Nat) :
    level.strictApply? id choice = some (level.apply id choice) := by
  unfold strictApply?
  rw [h.left, h.right]
  rfl

theorem Level.strictStep?_eq (linkage : Linkage n α) (id : Nat)
    (level : Level (Fin n) α) :
    level.strictStep? linkage id = level.step? linkage.score id := by
  have hchoices : level.strictChoices? linkage =
      some (level.choices linkage.score) := by
    unfold strictChoices?
    rw [strictOrderedPairs?_eq]
    refine mapM_eq_some_map fun pair _ => ?_
    rw [Cluster.strictAverage?_eq]
    rfl
  unfold strictStep? step?
  rw [hchoices]
  cases hlist : level.choices linkage.score with
  | nil => simp [strongest?, hlist]
  | cons first more =>
      have hstrongest : level.strongest? linkage.score =
          some (more.foldl Choice.stronger first) := by
        simp [strongest?, hlist]
      rw [hstrongest]
      -- the chosen clusters are looked up again, where the choice found them
      exact strictApply?_eq (fitsLevel_of_strongest? hstrongest) id

theorem Level.strictGrow?_eq (linkage : Linkage n α) {rounds : Nat} (id : Nat)
    {level : Level (Fin n) α} (hrounds : level.length ≤ rounds + 1) :
    level.strictGrow? linkage rounds id =
      some (level.grow linkage.score id) := by
  induction rounds generalizing id level with
  | zero =>
      rw [strictGrow?, if_pos hrounds, grow,
        (step?_eq_none_iff _ _ _).mpr hrounds]
  | succ rounds ih =>
      rw [strictGrow?, strictStep?_eq, grow]
      cases hstep : level.step? linkage.score id with
      | none => rw [if_pos ((step?_eq_none_iff _ _ _).mp hstep)]
      | some next =>
          have hlong : ¬ level.length ≤ 1 := by
            rw [← step?_eq_none_iff linkage.score id, hstep]
            simp
          have hnext := length_step? hstep
          rw [if_neg hlong]
          change (next.strictGrow? linkage rounds (id + 1)).bind _ = _
          rw [ih (id + 1) (by omega)]
          rfl

def Dendrogram.strictOfItems? (linkage : Linkage n α) (items : List (Fin n)) :
    Option (Dendrogram (Fin n) α) :=
  match items with
  | [] => some ⟨[]⟩
  | items => do
    let start := Level.ofItems items
    let later ← start.strictGrow? linkage items.length items.length
    return ⟨start :: later⟩

theorem Dendrogram.strictOfItems?_eq (linkage : Linkage n α)
    (items : List (Fin n)) :
    strictOfItems? linkage items = some (ofItems linkage.score items) := by
  cases items with
  | nil => rfl
  | cons item items =>
      unfold strictOfItems? ofItems
      dsimp only
      rw [Level.strictGrow?_eq linkage _ (by simp)]
      rfl

/-- Clusters the named classes. -/
def Clustering.strictRun? (coupling : Coupling) (names : Array String) :
    Option (Clustering α) := do
  let linkage ← Linkage.strictOfCoupling? coupling names
  let dendrogram ←
    Dendrogram.strictOfItems? linkage (List.finRange names.size)
  return ⟨names, linkage, dendrogram⟩

theorem Clustering.strictRun?_eq (coupling : Coupling)
    (names : Array String) :
    (strictRun? coupling names : Option (Clustering α)) =
      some (run coupling names) := by
  unfold strictRun?
  rw [Linkage.strictOfCoupling?_eq]
  simp only [Option.bind_eq_bind, Option.bind_some,
    Dendrogram.strictOfItems?_eq]
  rfl

end Growth

/-! ## The shape of a dendrogram -/

section Shape

variable {ι α : Type}

/-- The root, if there are levels; the last level must be one cluster. -/
def Dendrogram.strictRoot? (dendrogram : Dendrogram ι α) :
    Option (Option (Cluster ι α)) :=
  match dendrogram.levels.getLast? with
  | none => some none
  | some [root] => some (some root)
  | some _ => none

/-- The steps; every level but the first must end in a merge. -/
def Dendrogram.strictMerges? (dendrogram : Dendrogram ι α) :
    Option (List (Merge ι α)) :=
  (dendrogram.levels.zipIdx.drop 1).mapM fun entry =>
    Merge.ofLevel? entry.1 entry.2

/-- The clusters from a cluster down.  Their number, one less than twice that of
the members, must not fall below zero. -/
def Cluster.strictSubtree? (cluster : Cluster ι α) :
    Option (List (Cluster ι α)) :=
  if 1 ≤ 2 * cluster.members.length then some cluster.subtree else none

theorem Dendrogram.strictRoot?_eq [Score α] (scores : ι → ι → α)
    (items : List ι) :
    (ofItems scores items).strictRoot? = some (ofItems scores items).root? := by
  unfold strictRoot? root?
  cases hlast : (ofItems scores items).levels.getLast? with
  | none => rfl
  | some level =>
      rw [List.getLast?_eq_getElem?, length_levels] at hlast
      have hlength := length_of_getElem?_levels hlast
      have hbound := (List.getElem?_eq_some_iff.mp hlast).1
      rw [length_levels] at hbound
      obtain ⟨root, rfl⟩ : ∃ root, level = [root] :=
        List.length_eq_one_iff.mp (by omega)
      rfl

theorem Dendrogram.strictMerges?_eq [Score α] (scores : ι → ι → α)
    (items : List ι) :
    (ofItems scores items).strictMerges? =
      some (ofItems scores items).merges :=
  mapM_eq_some_filterMap fun _ => isSome_ofLevel?

theorem Cluster.strictSubtree?_eq (cluster : Cluster ι α) :
    cluster.strictSubtree? = some cluster.subtree := by
  have hpos := List.length_pos_of_ne_nil cluster.members_ne_nil
  exact if_pos (by omega)

end Shape

def Clustering.strictNames? {α : Type} (clustering : Clustering α)
    (cluster : Cluster (Fin clustering.names.size) α) :
    Option (List String) :=
  cluster.members.mapM fun i => clustering.names[i.val]?

theorem Clustering.strictNames?_eq {α : Type} (clustering : Clustering α)
    (cluster : Cluster (Fin clustering.names.size) α) :
    clustering.strictNames? cluster = some (clustering.classNames cluster) :=
  mapM_eq_some_map fun i _ => Array.getElem?_eq_getElem i.isLt

/-! ## Scoring with a cache -/

/-- A computation that may fail does what one without failure does. -/
def NeverFails {σ β : Type} (strict : StateT σ Option β) (plain : StateM σ β) :
    Prop :=
  ∀ state, strict.run state = some (plain.run state)

namespace NeverFails

variable {σ β γ δ : Type}

theorem pure (value : β) :
    NeverFails (Pure.pure value : StateT σ Option β) (Pure.pure value) := by
  intro state
  rfl

theorem bind {strict : StateT σ Option β} {plain : StateM σ β}
    {strictNext : β → StateT σ Option γ} {next : β → StateM σ γ}
    (h : NeverFails strict plain)
    (hnext : ∀ value, NeverFails (strictNext value) (next value)) :
    NeverFails (strict >>= strictNext) (plain >>= next) := by
  intro state
  rw [StateT.run_bind, StateT.run_bind, h state]
  exact hnext _ _

theorem get : NeverFails (MonadState.get : StateT σ Option σ) MonadState.get := by
  intro state
  rfl

theorem modify (f : σ → σ) :
    NeverFails (modify f : StateT σ Option PUnit) (modify f) := by
  intro state
  rfl

theorem bind_of_eq_some {strict : Option β} {value : β}
    {strictNext : β → StateT σ Option γ} {plain : StateM σ γ}
    (h : strict = some value) (hnext : NeverFails (strictNext value) plain) :
    NeverFails (liftM strict >>= strictNext) plain := by
  intro state
  rw [h]
  exact hnext state

theorem foldlM {strict : γ → δ → StateT σ Option γ} {plain : γ → δ → StateM σ γ}
    (h : ∀ total x, NeverFails (strict total x) (plain total x))
    (list : List δ) (start : γ) :
    NeverFails (list.foldlM strict start) (list.foldlM plain start) := by
  induction list generalizing start with
  | nil => exact pure start
  | cons first rest ih =>
      rw [List.foldlM_cons, List.foldlM_cons]
      exact (h start first).bind ih

theorem mapM {strict : δ → StateT σ Option γ} {plain : δ → StateM σ γ}
    (h : ∀ x, NeverFails (strict x) (plain x)) (list : List δ) :
    NeverFails (list.mapM strict) (list.mapM plain) := by
  induction list with
  | nil => exact pure []
  | cons first rest ih =>
      rw [List.mapM_cons, List.mapM_cons]
      exact (h first).bind fun _ => ih.bind fun _ => pure _

end NeverFails

/-- The number of unordered pairs, in which one is taken away from `n`. -/
def Cluster.strictPairTotal? (n : Nat) : Option Nat :=
  if 1 ≤ n then some (pairTotal n) else none

namespace PairCache

variable {n : Nat} {α : Type} [Score α]

def strictPair (linkage : Linkage n α) (a b : Cluster (Fin n) α) :
    StateT (PairCache α) Option α := do
  match (← get)[(a.id, b.id)]? with
  | some coupling => return coupling
  | none =>
    let coupling ← a.strictAverage? linkage b
    modify (·.insert (a.id, b.id) coupling)
    return coupling

def strictScore (linkage : Linkage n α) (cluster : Cluster (Fin n) α) :
    StateT (PairCache α) Option α := do
  let parts ← cluster.strictSubtree?
  if parts.length ≤ 1 then return Score.zero
  else
    let pairs ← strictOrderedPairs? parts
    let total ← pairs.foldlM
      (fun total (a, b) => return Score.add total (← strictPair linkage a b))
      Score.zero
    let count ← Cluster.strictPairTotal? parts.length
    return Score.div total (Score.ofNat count)

def strictScoreAll? (linkage : Linkage n α)
    (clusters : List (Cluster (Fin n) α)) : Option (List α) :=
  ((clusters.mapM (strictScore linkage)).run ∅).map Prod.fst

theorem neverFails_strictPair (linkage : Linkage n α)
    (a b : Cluster (Fin n) α) :
    NeverFails (strictPair linkage a b) (pair linkage.score a b) := by
  refine NeverFails.get.bind fun cache => ?_
  cases cache[(a.id, b.id)]? with
  | some coupling => exact .pure coupling
  | none =>
      refine .bind_of_eq_some (a.strictAverage?_eq linkage b) ?_
      exact (NeverFails.modify _).bind fun _ => .pure _

theorem neverFails_strictScore (linkage : Linkage n α)
    (cluster : Cluster (Fin n) α) :
    NeverFails (strictScore linkage cluster)
      (score linkage.score cluster) := by
  refine .bind_of_eq_some cluster.strictSubtree?_eq ?_
  unfold score
  dsimp only
  by_cases hsingle : cluster.subtree.length ≤ 1
  · rw [if_pos hsingle, if_pos hsingle]
    exact .pure _
  · rw [if_neg hsingle, if_neg hsingle]
    have hcount : Cluster.strictPairTotal? cluster.subtree.length =
        some (Cluster.pairTotal cluster.subtree.length) := if_pos (by omega)
    refine .bind_of_eq_some (strictOrderedPairs?_eq _) ?_
    refine .bind ?_ fun _ => .bind_of_eq_some hcount (.pure _)
    refine .foldlM (fun total pair => ?_) _ _
    exact (neverFails_strictPair linkage pair.1 pair.2).bind fun _ => .pure _

theorem strictScoreAll?_eq (linkage : Linkage n α)
    (clusters : List (Cluster (Fin n) α)) :
    strictScoreAll? linkage clusters =
      some (scoreAll linkage.score clusters) := by
  unfold strictScoreAll?
  rw [NeverFails.mapM (neverFails_strictScore linkage) clusters ∅]
  rfl

end PairCache

/-! ## Identifying modules -/

namespace Clustering

variable {α : Type} [Score α]

def strictCandidates? (clustering : Clustering α) :
    Option (List (Candidate (Fin clustering.names.size) α)) := do
  match ← clustering.dendrogram.strictRoot? with
  | none => return []
  | some root =>
    let clusters ← root.strictSubtree?
    let scores ← PairCache.strictScoreAll? clustering.linkage clusters
    return (clusters.zip scores).map fun entry => ⟨entry.1, entry.2⟩

/-- Identifies modules for a value that must lie from zero to one. -/
def strictIdentify? (clustering : Clustering α) (value : α) :
    Option (List (Candidate (Fin clustering.names.size) α)) := do
  let threshold ← Threshold.ofValue? value
  let candidates ← clustering.strictCandidates?
  return Candidate.select clustering.moduleCap
    (candidates.filter (·.reaches threshold))

theorem strictCandidates?_eq (coupling : Coupling) (names : Array String) :
    (run coupling names : Clustering α).strictCandidates? =
      some (run coupling names).candidates := by
  have hroot : (run coupling names : Clustering α).dendrogram.strictRoot? =
      some (run coupling names).dendrogram.root? :=
    Dendrogram.strictRoot?_eq _ _
  unfold strictCandidates? candidates Dendrogram.clusters
  rw [hroot]
  cases (run coupling names : Clustering α).dendrogram.root? with
  | none => rfl
  | some root =>
      simp only [Option.bind_eq_bind, Option.bind_some,
        Cluster.strictSubtree?_eq, PairCache.strictScoreAll?_eq]
      rfl

theorem strictIdentify?_eq (coupling : Coupling) (names : Array String)
    (threshold : Threshold α) :
    (run coupling names : Clustering α).strictIdentify? threshold.value =
      some ((run coupling names).identify threshold) := by
  have hvalue : Threshold.ofValue? threshold.value = some threshold :=
    dif_pos threshold.inUnit
  unfold strictIdentify?
  rw [hvalue, strictCandidates?_eq]
  rfl

end Clustering

end ModuleRecovery
