import ModuleRecovery.Cohesion
import ModuleRecovery.Dendrogram

/-!
# Identifying modules

Every cluster of a dendrogram is a candidate for a module.  The candidates whose
internal coupling reaches the threshold are modules, in the order in which the
tree is walked from its root.  There are to be at most half as many modules as
classes: when more candidates reach the threshold, those with the greatest
internal coupling are taken, and of equals the earlier ones.
-/

namespace ModuleRecovery

/-- A score from zero to one. -/
def inUnitInterval {α : Type} [Score α] (value : α) : Bool :=
  Score.le Score.zero value && Score.le value (Score.ofNat 1)

/-- The least internal coupling of a module. -/
structure Threshold (α : Type) [Score α] where
  value : α
  inUnit : inUnitInterval value = true

/-- The threshold with the given value, which must lie from zero to one. -/
def Threshold.ofValue? {α : Type} [Score α] (value : α) :
    Option (Threshold α) :=
  if h : inUnitInterval value = true then some ⟨value, h⟩ else none

structure Candidate (ι α : Type) where
  cluster : Cluster ι α
  internalCoupling : α

namespace Candidate

variable {ι α : Type} [Score α]

def reaches (threshold : Threshold α) (candidate : Candidate ι α) : Bool :=
  Score.le threshold.value candidate.internalCoupling

/-- At most `cap` candidates: all if they are few enough, or else those with the
greatest internal coupling. -/
def select (cap : Nat) (candidates : List (Candidate ι α)) :
    List (Candidate ι α) :=
  if candidates.length ≤ cap then candidates
  else
    (candidates.mergeSort fun a b =>
      Score.rank b.internalCoupling a.internalCoupling).take cap

end Candidate

namespace Clustering

variable {α : Type} [Score α]

/-- All clusters of the dendrogram with their internal couplings. -/
def candidates (clustering : Clustering α) :
    List (Candidate (Fin clustering.names.size) α) :=
  let clusters := clustering.dendrogram.clusters
  (clusters.zip (PairCache.scoreAll clustering.linkage.score clusters)).map
    fun (cluster, score) => ⟨cluster, score⟩

/-- There are at most this many modules. -/
def moduleCap (clustering : Clustering α) : Nat :=
  clustering.classCount / 2

def identify (clustering : Clustering α) (threshold : Threshold α) :
    List (Candidate (Fin clustering.names.size) α) :=
  Candidate.select clustering.moduleCap
    (clustering.candidates.filter (·.reaches threshold))

end Clustering

end ModuleRecovery
