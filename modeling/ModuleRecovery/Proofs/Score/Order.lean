import ModuleRecovery.Score
import Mathlib

/-!
# The order of scores

A greedy choice is only determined when the comparison of scores is a strict weak
order.  Doubles are not ordered so as a whole, since one of them is not a number;
all others stand in the lexicographic order of their class (negative infinity,
negative, zero, positive, infinity), exponent and mantissa.
-/

namespace ModuleRecovery

/-- On the accepted scores the strict comparison is a strict weak order: two
scores of which neither is less are interchangeable. -/
structure Score.WeakOrder {α : Type} [Score α] (accepts : α → Prop) :
    Prop where
  irrefl : ∀ a, accepts a → ¬ Score.lt a a
  trans : ∀ a b c, accepts a → accepts b → accepts c →
    Score.lt a b → Score.lt b c → Score.lt a c
  negTrans : ∀ a b c, accepts a → accepts b → accepts c →
    ¬ Score.lt a b → ¬ Score.lt b c → ¬ Score.lt a c

theorem Score.WeakOrder.lt_of_lt_of_not_lt {α : Type} [Score α]
    {accepts : α → Prop} (horder : Score.WeakOrder accepts) {a b c : α}
    (ha : accepts a) (hb : accepts b) (hc : accepts c)
    (hac : Score.lt a c) (hab : ¬ Score.lt a b) : Score.lt b c := by
  by_contra hbc
  exact horder.negTrans a b c ha hb hc hab hbc hac

namespace Double

open Float.Model Float.Model.UnpackedFloat

/-- The double is a number, possibly infinite. -/
def IsNumber (x : Float) : Prop :=
  x.toModel.unpack ≠ .notANumber

/-- The place of an unpacked double in the order of numbers: its class, then its
exponent and mantissa, both reversed for negative numbers. -/
def place : UnpackedFloat → ℤ ×ₗ ℤ ×ₗ ℤ
  | .infinity .negative => toLex (-2, toLex (0, 0))
  | .finite .negative m e _ => toLex (-1, toLex (-e, -(m : ℤ)))
  | .zero _ => toLex (0, toLex (0, 0))
  | .finite .positive m e _ => toLex (1, toLex (e, (m : ℤ)))
  | .infinity .positive => toLex (2, toLex (0, 0))
  | .notANumber => toLex (3, toLex (0, 0))

theorem compare_then_eq_lt_iff (e₁ e₂ : ℤ) (m₁ m₂ : ℕ) :
    (compare e₁ e₂).then (compare m₁ m₂) = .lt ↔
      e₁ < e₂ ∨ e₁ = e₂ ∧ m₁ < m₂ := by
  rw [Ordering.then_eq_lt, compare_lt_iff_lt, compare_eq_iff_eq,
    compare_lt_iff_lt]

theorem compare_then_eq_gt_iff (e₁ e₂ : ℤ) (m₁ m₂ : ℕ) :
    (compare e₁ e₂).then (compare m₁ m₂) = .gt ↔
      e₂ < e₁ ∨ e₁ = e₂ ∧ m₂ < m₁ := by
  rw [Ordering.then_eq_gt, compare_gt_iff_gt, compare_eq_iff_eq,
    compare_gt_iff_gt]

theorem lt_iff_place_lt {a b : UnpackedFloat} (ha : a ≠ .notANumber)
    (hb : b ≠ .notANumber) :
    a.lt b = true ↔ place a < place b := by
  unfold UnpackedFloat.lt
  rw [beq_iff_eq]
  -- the class decides, except between two finite numbers of one sign
  cases a with
  | notANumber => exact (ha rfl).elim
  | infinity s =>
      cases b with
      | notANumber => exact (hb rfl).elim
      | infinity t => cases s <;> cases t <;> decide
      | zero t =>
          cases s <;>
            simp [UnpackedFloat.compare, place, Prod.Lex.toLex_lt_toLex]
      | finite t m e hm =>
          cases s <;> cases t <;>
            simp [UnpackedFloat.compare, place, Prod.Lex.toLex_lt_toLex]
  | zero s =>
      cases b with
      | notANumber => exact (hb rfl).elim
      | infinity t =>
          cases t <;>
            simp [UnpackedFloat.compare, place, Prod.Lex.toLex_lt_toLex]
      | zero t => simp [UnpackedFloat.compare, place]
      | finite t m e hm =>
          cases t <;>
            simp [UnpackedFloat.compare, place, Prod.Lex.toLex_lt_toLex]
  | finite s m e hm =>
      cases b with
      | notANumber => exact (hb rfl).elim
      | infinity t =>
          cases s <;> cases t <;>
            simp [UnpackedFloat.compare, place, Prod.Lex.toLex_lt_toLex]
      | zero t =>
          cases s <;>
            simp [UnpackedFloat.compare, place, Prod.Lex.toLex_lt_toLex]
      | finite t n f hn =>
          cases s with
          | negative =>
              cases t with
              | negative =>
                  simp [UnpackedFloat.compare, place, Prod.Lex.toLex_lt_toLex,
                    compare_then_eq_gt_iff, Ordering.swap_eq_lt]
              | positive =>
                  simp [UnpackedFloat.compare, place, Prod.Lex.toLex_lt_toLex]
          | positive =>
              cases t with
              | negative =>
                  simp [UnpackedFloat.compare, place, Prod.Lex.toLex_lt_toLex]
              | positive =>
                  simp [UnpackedFloat.compare, place, Prod.Lex.toLex_lt_toLex,
                    compare_then_eq_lt_iff]

theorem score_lt_iff (x y : Float) :
    Score.lt x y = true ↔ x.toModel.unpack.lt y.toModel.unpack = true := by
  change decide (x < y) = true ↔ _
  rw [decide_eq_true_iff]
  change decide (x.toModel < y.toModel) = true ↔ _
  rw [decide_eq_true_iff]
  rfl

theorem score_le_iff (x y : Float) :
    Score.le x y = true ↔ x.toModel.unpack.le y.toModel.unpack = true := by
  change decide (x ≤ y) = true ↔ _
  rw [decide_eq_true_iff]
  change decide (x.toModel ≤ y.toModel) = true ↔ _
  rw [decide_eq_true_iff]
  rfl

theorem score_lt_iff_place_lt {x y : Float} (hx : IsNumber x)
    (hy : IsNumber y) :
    Score.lt x y = true ↔
      place x.toModel.unpack < place y.toModel.unpack := by
  rw [score_lt_iff, lt_iff_place_lt hx hy]

/-- All doubles that are numbers are compared by a strict weak order. -/
theorem weakOrder_isNumber : Score.WeakOrder IsNumber where
  irrefl := by
    intro x hx
    rw [score_lt_iff_place_lt hx hx]
    exact lt_irrefl _
  trans := by
    intro x y z hx hy hz hxy hyz
    rw [score_lt_iff_place_lt hx hy] at hxy
    rw [score_lt_iff_place_lt hy hz] at hyz
    rw [score_lt_iff_place_lt hx hz]
    exact hxy.trans hyz
  negTrans := by
    intro x y z hx hy hz hxy hyz
    rw [score_lt_iff_place_lt hx hy, not_lt] at hxy
    rw [score_lt_iff_place_lt hy hz, not_lt] at hyz
    rw [score_lt_iff_place_lt hx hz, not_lt]
    exact hyz.trans hxy

end Double

end ModuleRecovery
