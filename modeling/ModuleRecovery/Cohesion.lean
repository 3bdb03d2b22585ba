import ModuleRecovery.Cluster
import Std.Data.HashMap

/-!
# Internal coupling

The internal coupling of a cluster is the mean coupling over all unordered pairs
of the clusters in its subtree; a single item has none.  The same pairs recur
below every ancestor, so when several clusters are scored one after the other
the couplings of pairs are kept under the numbers of the two clusters.
-/

namespace ModuleRecovery

namespace Cluster

variable {ι α : Type} [Score α]

/-- The number of unordered pairs among `n` things. -/
def pairTotal (n : Nat) : Nat :=
  n * (n - 1) / 2

/-- The mean coupling over the pairs of clusters in the subtree. -/
def internalCoupling (scores : ι → ι → α) (cluster : Cluster ι α) : α :=
  let parts := cluster.subtree
  if parts.length ≤ 1 then Score.zero
  else
    Score.mean ((orderedPairs parts).map fun (a, b) => a.average scores b)
      (pairTotal parts.length)

end Cluster

/-- Couplings of pairs of clusters, kept under the numbers of the two. -/
abbrev PairCache (α : Type) : Type :=
  Std.HashMap (Nat × Nat) α

namespace PairCache

variable {ι α : Type} [Score α]

/-- The coupling of two clusters, computed unless it has been kept. -/
def pair (scores : ι → ι → α) (a b : Cluster ι α) : StateM (PairCache α) α := do
  match (← get)[(a.id, b.id)]? with
  | some coupling => return coupling
  | none =>
    let coupling := a.average scores b
    modify (·.insert (a.id, b.id) coupling)
    return coupling

/-- The internal coupling of a cluster, using what has been kept. -/
def score (scores : ι → ι → α) (cluster : Cluster ι α) :
    StateM (PairCache α) α := do
  let parts := cluster.subtree
  if parts.length ≤ 1 then return Score.zero
  else
    let total ← (orderedPairs parts).foldlM
      (fun total (a, b) => return Score.add total (← pair scores a b))
      Score.zero
    return Score.div total (Score.ofNat (Cluster.pairTotal parts.length))

/-- The internal couplings of clusters that are scored one after the other. -/
def scoreAll (scores : ι → ι → α) (clusters : List (Cluster ι α)) : List α :=
  ((clusters.mapM (score scores)).run ∅).1

end PairCache

end ModuleRecovery
