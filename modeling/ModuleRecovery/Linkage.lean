import ModuleRecovery.Cluster
import ModuleRecovery.Coupling

/-!
# Linkage tables

A linkage holds the scores of all pairs of `n` classes, addressed by position.
The coupling of two clusters is the mean score over their pairs of classes.
-/

namespace ModuleRecovery

structure Linkage (n : Nat) (α : Type) where
  table : Vector (Vector α n) n

namespace Linkage

variable {n : Nat} {α : Type}

def score (linkage : Linkage n α) (i j : Fin n) : α :=
  linkage.table[i][j]

def ofFn (f : Fin n → Fin n → α) : Linkage n α :=
  ⟨Vector.ofFn fun i => Vector.ofFn fun j => f i j⟩

/-- The scores that the coupling gives to the names. -/
def ofCoupling [Score α] (coupling : Coupling) (names : Array String) :
    Linkage names.size α :=
  let scores := coupling.normalized
  ofFn fun i j => Coupling.scoreIn scores names[i] names[j]

theorem score_ofCoupling [Score α] (coupling : Coupling)
    (names : Array String) (i j : Fin names.size) :
    (ofCoupling coupling names : Linkage names.size α).score i j =
      coupling.between names[i] names[j] := by
  simp [score, ofCoupling, ofFn, Coupling.between]

/-- The scores at the first `n` places of the first `n` rows, if all of them are
there. -/
def ofRows? (n : Nat) (rows : Array (Array α)) : Option (Linkage n α) := do
  let rows ← (Vector.ofFn fun (i : Fin n) => i).mapM fun i => do
    let row ← rows[i.val]?
    (Vector.ofFn fun (j : Fin n) => j).mapM fun j => row[j.val]?
  return ⟨rows⟩

def between [Score α] (linkage : Linkage n α) (a b : Cluster (Fin n) α) : α :=
  a.average linkage.score b

end Linkage

end ModuleRecovery
