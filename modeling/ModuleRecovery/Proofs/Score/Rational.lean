import ModuleRecovery.Cluster
import ModuleRecovery.Proofs.Score.Order

/-!
# Scores without rounding

Over the rationals a sum does not depend on the order of its terms, and the mean
over the pairs of two clusters is a sum divided by the number of pairs.  The sum
splits with either cluster, so the coupling to a merged cluster is the mean of the
couplings to its two parts, weighted by their sizes.
-/

namespace ModuleRecovery

variable {ι α : Type}

namespace Score

theorem sum_rat (scores : List ℚ) : Score.sum scores = scores.sum := by
  rw [List.sum_eq_foldl]
  rfl

theorem mean_rat (scores : List ℚ) (count : ℕ) :
    Score.mean scores count = scores.sum / count := by
  rw [← sum_rat]
  rfl

theorem lt_rat_iff (a b : ℚ) : Score.lt a b = true ↔ a < b :=
  decide_eq_true_iff

theorem weakOrder_rat : Score.WeakOrder fun _ : ℚ => True where
  irrefl := by
    intro a _
    rw [lt_rat_iff]
    exact lt_irrefl a
  trans := by
    intro a b c _ _ _ hab hbc
    rw [lt_rat_iff] at hab hbc ⊢
    exact hab.trans hbc
  negTrans := by
    intro a b c _ _ _ hab hbc
    rw [lt_rat_iff, not_lt] at hab hbc ⊢
    exact hbc.trans hab

end Score

namespace Cluster

def size (cluster : Cluster ι α) : ℕ :=
  cluster.members.length

theorem size_pos (cluster : Cluster ι α) : 0 < cluster.size :=
  List.length_pos_of_ne_nil cluster.members_ne_nil

theorem size_merge (id : ℕ) (left right : Cluster ι α) (coupling : α) :
    (merge id left right coupling).size = left.size + right.size := by
  simp [size, members]

/-- The sum of the scores over all pairs of an item of the first cluster and an
item of the second. -/
def pairSum (scores : ι → ι → ℚ) (a b : Cluster ι ℚ) : ℚ :=
  (a.members.map fun x => (b.members.map (scores x)).sum).sum

theorem average_rat (scores : ι → ι → ℚ) (a b : Cluster ι ℚ) :
    a.average scores b = pairSum scores a b / (a.size * b.size) := by
  unfold average pairSum size
  dsimp only
  rw [Score.mean_rat, List.flatMap_def, List.sum_flatten, List.map_map,
    Nat.cast_mul]
  rfl

theorem pairSum_merge_right (scores : ι → ι → ℚ) (a left right : Cluster ι ℚ)
    (id : ℕ) (coupling : ℚ) :
    pairSum scores a (merge id left right coupling) =
      pairSum scores a left + pairSum scores a right := by
  unfold pairSum
  rw [← List.sum_map_add]
  congr 1
  refine List.map_congr_left ?_
  intro x _
  rw [members, List.map_append, List.sum_append]

theorem pairSum_comm {scores : ι → ι → ℚ}
    (hscores : ∀ x y, scores x y = scores y x) (a b : Cluster ι ℚ) :
    pairSum scores a b = pairSum scores b a := by
  unfold pairSum
  induction a.members with
  | nil => simp
  | cons x items ih =>
      have hrow : b.members.map (scores x) =
          b.members.map fun y => scores y x :=
        List.map_congr_left fun y _ => hscores x y
      rw [List.map_cons, List.sum_cons, ih, hrow, ← List.sum_map_add]
      rfl

theorem average_comm {scores : ι → ι → ℚ}
    (hscores : ∀ x y, scores x y = scores y x) (a b : Cluster ι ℚ) :
    a.average scores b = b.average scores a := by
  rw [average_rat, average_rat, pairSum_comm hscores a b, mul_comm]

/-- The coupling to a merged cluster is the mean of the couplings to its parts,
weighted by their sizes. -/
theorem average_merge_right (scores : ι → ι → ℚ)
    (a left right : Cluster ι ℚ) (id : ℕ) (coupling : ℚ) :
    a.average scores (merge id left right coupling) =
      (left.size * a.average scores left +
        right.size * a.average scores right) / (left.size + right.size) := by
  have ha : (0 : ℚ) < a.size := Nat.cast_pos.mpr a.size_pos
  have hleft : (0 : ℚ) < left.size := Nat.cast_pos.mpr left.size_pos
  have hright : (0 : ℚ) < right.size := Nat.cast_pos.mpr right.size_pos
  rw [average_rat, average_rat, average_rat, pairSum_merge_right, size_merge,
    Nat.cast_add]
  field_simp

theorem average_merge_right_le {scores : ι → ι → ℚ}
    {a left right : Cluster ι ℚ} {bound : ℚ}
    (hleft : a.average scores left ≤ bound)
    (hright : a.average scores right ≤ bound) (id : ℕ) (coupling : ℚ) :
    a.average scores (merge id left right coupling) ≤ bound := by
  have hleftSize : (0 : ℚ) < left.size := Nat.cast_pos.mpr left.size_pos
  have hrightSize : (0 : ℚ) < right.size := Nat.cast_pos.mpr right.size_pos
  rw [average_merge_right, div_le_iff₀ (by positivity)]
  calc
    left.size * a.average scores left + right.size * a.average scores right ≤
        left.size * bound + right.size * bound := by gcongr
    _ = bound * (left.size + right.size) := by ring

end Cluster

end ModuleRecovery
