import ModuleRecovery.Score

/-!
# Clusters

A cluster is a binary tree over the items that are clustered.  Each merge keeps
the coupling of its two parts at the time they were merged.  Clusters are
numbered in the order they are made, and a number names a cluster within one
clustering.
-/

namespace ModuleRecovery

/-- A single item, or two clusters merged. -/
inductive Cluster (ι α : Type) where
  | leaf (id : Nat) (item : ι)
  | merge (id : Nat) (left right : Cluster ι α) (coupling : α)
  deriving DecidableEq, Repr

namespace Cluster

variable {ι α : Type}

def id : Cluster ι α → Nat
  | leaf id _ => id
  | merge id _ _ _ => id

/-- The items of the cluster, those of the left part first. -/
def members : Cluster ι α → List ι
  | leaf _ item => [item]
  | merge _ left right _ => left.members ++ right.members

theorem members_ne_nil (cluster : Cluster ι α) : cluster.members ≠ [] := by
  induction cluster with
  | leaf id item => simp [members]
  | merge id left right coupling ihLeft _ => simp [members, ihLeft]

def children? : Cluster ι α → Option (Cluster ι α × Cluster ι α)
  | leaf _ _ => none
  | merge _ left right _ => some (left, right)

def coupling? : Cluster ι α → Option α
  | leaf _ _ => none
  | merge _ _ _ coupling => some coupling

def treeSize : Cluster ι α → Nat
  | leaf _ _ => 1
  | merge _ left right _ => left.treeSize + right.treeSize + 1

def stackSize : List (Cluster ι α) → Nat
  | [] => 0
  | cluster :: rest => treeSize cluster + stackSize rest

/-- The clusters of a stack of trees, each tree from its top down and its left
part before its right part. -/
def traverse (stack : List (Cluster ι α)) : List (Cluster ι α) :=
  match stack with
  | [] => []
  | leaf id item :: rest => leaf id item :: traverse rest
  | merge id left right coupling :: rest =>
    merge id left right coupling :: traverse (left :: right :: rest)
termination_by stackSize stack
decreasing_by
  · simp [stackSize, treeSize]
  · simp [stackSize, treeSize]
    omega

/-- The cluster and all clusters below it, each before its parts. -/
def subtree (cluster : Cluster ι α) : List (Cluster ι α) :=
  traverse [cluster]

/-- The mean of a table of scores over all pairs of an item of the first cluster
and an item of the second. -/
def average [Score α] (scores : ι → ι → α) (a b : Cluster ι α) : α :=
  let left := a.members
  let right := b.members
  Score.mean (left.flatMap fun x => right.map (scores x))
    (left.length * right.length)

end Cluster

/-- All pairs of an entry of a list with a later one, ordered by the first entry
and then by the second. -/
def orderedPairs {β : Type} : List β → List (β × β)
  | [] => []
  | first :: rest => rest.map (first, ·) ++ orderedPairs rest

theorem exists_getElem?_of_mem_orderedPairs {β : Type} {list : List β} {a b : β}
    (h : (a, b) ∈ orderedPairs list) :
    ∃ i j : Nat, i < j ∧ list[i]? = some a ∧ list[j]? = some b := by
  induction list with
  | nil => simp [orderedPairs] at h
  | cons first rest ih =>
      rcases List.mem_append.mp h with hfirst | hrest
      · obtain ⟨other, hother, heq⟩ := List.mem_map.mp hfirst
        cases heq
        obtain ⟨j, hj⟩ := List.mem_iff_getElem?.mp hother
        exact ⟨0, j + 1, Nat.succ_pos j, rfl, hj⟩
      · obtain ⟨i, j, hij, hi, hj⟩ := ih hrest
        exact ⟨i + 1, j + 1, Nat.succ_lt_succ hij, hi, hj⟩

theorem mem_orderedPairs_of_getElem? {β : Type} {list : List β} {i j : Nat}
    {a b : β} (hij : i < j) (hi : list[i]? = some a)
    (hj : list[j]? = some b) : (a, b) ∈ orderedPairs list := by
  induction list generalizing i j with
  | nil => simp at hi
  | cons first rest ih =>
      obtain ⟨j, rfl⟩ : ∃ n, j = n + 1 := ⟨j - 1, by omega⟩
      rw [List.getElem?_cons_succ] at hj
      cases i with
      | zero =>
          obtain rfl : first = a := by simpa using hi
          apply List.mem_append_left
          exact List.mem_map_of_mem (List.mem_of_getElem? hj)
      | succ i =>
          rw [List.getElem?_cons_succ] at hi
          exact List.mem_append_right _ (ih (by omega) hi hj)

theorem mem_of_mem_orderedPairs {β : Type} {list : List β} {p : β × β}
    (h : p ∈ orderedPairs list) : p.1 ∈ list ∧ p.2 ∈ list := by
  obtain ⟨i, j, -, hi, hj⟩ := exists_getElem?_of_mem_orderedPairs h
  exact ⟨List.mem_of_getElem? hi, List.mem_of_getElem? hj⟩

theorem orderedPairs_eq_nil_iff {β : Type} (list : List β) :
    orderedPairs list = [] ↔ list.length ≤ 1 := by
  cases list with
  | nil => simp [orderedPairs]
  | cons first rest =>
      cases rest with
      | nil => simp [orderedPairs]
      | cons second rest => simp [orderedPairs]

theorem orderedPairs_map {β γ : Type} (f : β → γ) (list : List β) :
    orderedPairs (list.map f) = (orderedPairs list).map (Prod.map f f) := by
  induction list with
  | nil => rfl
  | cons first rest ih => simp [orderedPairs, ih]

theorem orderedPairs_sublist {β : Type} {part list : List β}
    (h : part.Sublist list) :
    (orderedPairs part).Sublist (orderedPairs list) := by
  induction h with
  | slnil => exact .slnil
  | cons first h ih => exact List.sublist_append_of_sublist_right ih
  | cons_cons first h ih => exact (h.map _).append ih

end ModuleRecovery
