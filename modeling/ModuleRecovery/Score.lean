/-!
# The arithmetic of scores

Coupling scores are added, divided by counts and compared.  The analyses are
written against these few operations, so they run on doubles and can be read
over the rationals, where no step rounds.

Two comparisons are kept apart.  `lt` and `le` are the comparisons of the number
type.  `rank` orders a ranking: it is total even where the number type has values
that cannot be compared.
-/

namespace ModuleRecovery

/-- The largest count: counts have 64 bits. -/
def maxCount : Nat := 0xFFFFFFFFFFFFFFFF

/-- What the analyses need of a score. -/
class Score (α : Type) where
  zero : α
  add : α → α → α
  div : α → α → α
  /-- The score nearest to a count. -/
  ofNat : Nat → α
  lt : α → α → Bool
  le : α → α → Bool
  /-- The first score stands before the second in ascending order, or level. -/
  rank : α → α → Bool

namespace Score

variable {α : Type} [Score α]

/-- The sum from the left, starting at zero. -/
def sum (scores : List α) : α :=
  scores.foldl add zero

/-- The sum of the scores divided by their intended number. -/
def mean (scores : List α) (count : Nat) : α :=
  div (sum scores) (ofNat count)

/-- The place of a double in the total order of all doubles: negative ones with
the larger magnitude first, minus zero before zero, and those that are not
numbers at the two ends. -/
def floatPlace (x : Float) : Int :=
  let bits := x.toBits.toNat
  let signBit := 0x8000000000000000
  if bits < signBit then bits else -((bits - signBit : Nat) : Int) - 1

/-- The double nearest to a count; a number above the largest count is taken for
the largest one. -/
def floatOfCount (n : Nat) : Float :=
  if n ≤ maxCount then n.toUInt64.toFloat else maxCount.toUInt64.toFloat

instance : Score Float where
  zero := 0
  add := Float.add
  div := Float.div
  ofNat := floatOfCount
  lt a b := decide (a < b)
  le a b := decide (a ≤ b)
  rank a b := decide (floatPlace a ≤ floatPlace b)

instance : Score Rat where
  zero := 0
  add := Rat.add
  div := Rat.div
  ofNat n := Rat.ofInt n
  lt a b := decide (a < b)
  le a b := decide (a ≤ b)
  rank a b := decide (a ≤ b)

end Score

end ModuleRecovery
