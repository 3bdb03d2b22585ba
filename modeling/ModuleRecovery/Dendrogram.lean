import ModuleRecovery.Linkage

/-!
# Agglomerative clustering

Clustering starts with each item as a cluster of its own and merges two clusters
at a time until one is left.  Each step merges the pair with the strictly
greatest coupling, and of several such pairs the first in the order of
positions.  The merged cluster is put behind the clusters that were not touched,
which keep their order.  The levels of a dendrogram are the partitions that
appear on the way.
-/

namespace ModuleRecovery

section Levels

variable {ι α : Type}

abbrev Level (ι α : Type) : Type :=
  List (Cluster ι α)

/-- Two clusters of a level, their positions, and their coupling. -/
structure Choice (ι α : Type) where
  leftPosition : Nat
  rightPosition : Nat
  left : Cluster ι α
  right : Cluster ι α
  coupling : α

/-- All choices that a level allows, in the order of positions. -/
def Level.choices [Score α] (scores : ι → ι → α) (level : Level ι α) :
    List (Choice ι α) :=
  (orderedPairs level.zipIdx).map fun ((left, i), (right, j)) =>
    ⟨i, j, left, right, left.average scores right⟩

/-- The choice with the greater coupling; the earlier one unless the later is
strictly greater. -/
def Choice.stronger [Score α] (earlier later : Choice ι α) : Choice ι α :=
  if Score.lt earlier.coupling later.coupling then later else earlier

/-- The first of the choices with the greatest coupling. -/
def Level.strongest? [Score α] (scores : ι → ι → α) (level : Level ι α) :
    Option (Choice ι α) :=
  match level.choices scores with
  | [] => none
  | first :: more => some (more.foldl Choice.stronger first)

/-- Merges the chosen clusters into one with the given number. -/
def Level.apply (level : Level ι α) (id : Nat) (choice : Choice ι α) :
    Level ι α :=
  (level.eraseIdx choice.rightPosition).eraseIdx choice.leftPosition ++
    [.merge id choice.left choice.right choice.coupling]

/-- One step of clustering, if there are two clusters to merge. -/
def Level.step? [Score α] (scores : ι → ι → α) (id : Nat)
    (level : Level ι α) : Option (Level ι α) :=
  (level.strongest? scores).map (level.apply id)

/-- The choice is one of two clusters of the level, the left one standing before
the right one. -/
structure Choice.FitsLevel (choice : Choice ι α) (level : Level ι α) :
    Prop where
  ordered : choice.leftPosition < choice.rightPosition
  left : level[choice.leftPosition]? = some choice.left
  right : level[choice.rightPosition]? = some choice.right

theorem Level.fitsLevel_of_mem_choices [Score α] {scores : ι → ι → α}
    {level : Level ι α} {choice : Choice ι α}
    (h : choice ∈ level.choices scores) : choice.FitsLevel level := by
  obtain ⟨⟨⟨left, i⟩, ⟨right, j⟩⟩, hpair, rfl⟩ := List.mem_map.mp h
  obtain ⟨p, q, hpq, hp, hq⟩ := exists_getElem?_of_mem_orderedPairs hpair
  simp only [List.getElem?_zipIdx, Option.map_eq_some_iff, Prod.mk.injEq]
    at hp hq
  obtain ⟨left', hleft, rfl, rfl⟩ := hp
  obtain ⟨right', hright, rfl, rfl⟩ := hq
  exact
    { ordered := by simpa using hpq
      left := by simpa using hleft
      right := by simpa using hright }

theorem foldl_stronger_mem [Score α] (first : Choice ι α)
    (more : List (Choice ι α)) :
    more.foldl Choice.stronger first ∈ first :: more := by
  induction more generalizing first with
  | nil => simp
  | cons next more ih =>
      rw [List.foldl_cons]
      rcases List.mem_cons.mp (ih (first.stronger next)) with heq | hmem
      · rw [heq]
        unfold Choice.stronger
        split <;> simp
      · simp [hmem]

theorem Level.mem_choices_of_strongest? [Score α] {scores : ι → ι → α}
    {level : Level ι α} {choice : Choice ι α}
    (h : level.strongest? scores = some choice) :
    choice ∈ level.choices scores := by
  unfold Level.strongest? at h
  split at h
  · cases h
  · rename_i first more hchoices
    cases h
    rw [hchoices]
    exact foldl_stronger_mem first more

theorem Level.fitsLevel_of_strongest? [Score α] {scores : ι → ι → α}
    {level : Level ι α} {choice : Choice ι α}
    (h : level.strongest? scores = some choice) : choice.FitsLevel level :=
  fitsLevel_of_mem_choices (mem_choices_of_strongest? h)

theorem Choice.FitsLevel.length_apply {choice : Choice ι α}
    {level : Level ι α} (hfits : choice.FitsLevel level) (id : Nat) :
    (level.apply id choice).length + 1 = level.length := by
  have hordered := hfits.ordered
  have hright := (List.getElem?_eq_some_iff.mp hfits.right).1
  simp only [Level.apply, List.length_append, List.length_eraseIdx,
    List.length_singleton]
  split <;> split <;> omega

theorem Level.length_step? [Score α] {scores : ι → ι → α} {id : Nat}
    {level next : Level ι α} (h : level.step? scores id = some next) :
    next.length + 1 = level.length := by
  obtain ⟨choice, hchoice, rfl⟩ := Option.map_eq_some_iff.mp h
  exact (fitsLevel_of_strongest? hchoice).length_apply id

/-- The levels after the given one, as long as there is something to merge.  The
merges are numbered from `id` on. -/
def Level.grow [Score α] (scores : ι → ι → α) (id : Nat)
    (level : Level ι α) : List (Level ι α) :=
  match h : level.step? scores id with
  | none => []
  | some next => next :: grow scores (id + 1) next
termination_by level.length
decreasing_by
  have hlength := Level.length_step? h
  omega

def Level.ofItems (items : List ι) : Level ι α :=
  items.zipIdx.map fun (item, id) => .leaf id item

/-- One step of a clustering. -/
structure Merge (ι α : Type) where
  level : Nat
  left : Cluster ι α
  right : Cluster ι α
  merged : Cluster ι α
  coupling : α

/-- The step that leads to a level is told by the last cluster of the level. -/
def Merge.ofLevel? (level : Level ι α) (index : Nat) : Option (Merge ι α) :=
  match level.getLast? with
  | some (.merge id left right coupling) =>
    some ⟨index, left, right, .merge id left right coupling, coupling⟩
  | _ => none

/-- The levels of a clustering, from single items to one cluster. -/
structure Dendrogram (ι α : Type) where
  levels : List (Level ι α)

namespace Dendrogram

/-- Clusters the items.  Without items there is no level. -/
def ofItems [Score α] (scores : ι → ι → α) (items : List ι) :
    Dendrogram ι α :=
  match items with
  | [] => ⟨[]⟩
  | items =>
    let start := Level.ofItems items
    ⟨start :: start.grow scores items.length⟩

/-- The one cluster of the last level. -/
def root? (dendrogram : Dendrogram ι α) : Option (Cluster ι α) :=
  match dendrogram.levels.getLast? with
  | some [root] => some root
  | _ => none

def merges (dendrogram : Dendrogram ι α) : List (Merge ι α) :=
  (dendrogram.levels.zipIdx.drop 1).filterMap fun (level, index) =>
    Merge.ofLevel? level index

/-- All clusters of the dendrogram, from the root down. -/
def clusters (dendrogram : Dendrogram ι α) : List (Cluster ι α) :=
  match dendrogram.root? with
  | some root => root.subtree
  | none => []

end Dendrogram

end Levels

structure Clustering (α : Type) where
  names : Array String
  linkage : Linkage names.size α
  dendrogram : Dendrogram (Fin names.size) α

namespace Clustering

variable {α : Type}

/-- Clusters the named classes by their coupling.  The order of the names decides
between equal couplings. -/
def run [Score α] (coupling : Coupling) (names : Array String) :
    Clustering α :=
  let linkage := Linkage.ofCoupling coupling names
  { names, linkage,
    dendrogram := .ofItems linkage.score (List.finRange names.size) }

def classCount (clustering : Clustering α) : Nat :=
  clustering.names.size

def classNames (clustering : Clustering α)
    (cluster : Cluster (Fin clustering.names.size) α) : List String :=
  cluster.members.map fun i => clustering.names[i]

/-- The names of the classes in each cluster of a level. -/
def levelNames? (clustering : Clustering α) (k : Nat) :
    Option (List (List String)) :=
  clustering.dendrogram.levels[k]?.map (·.map clustering.classNames)

end Clustering

end ModuleRecovery
