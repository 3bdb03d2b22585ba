/-!
# Character classes given by spans

A class of characters that a standard fixes by a table is kept as a list of
spans of code points.  A span may skip: many scripts put the two cases of a
letter side by side, so the letters of one case stand two apart.
-/

namespace ModuleRecovery.Text

/-- The code points `first`, `first + step`, … up to `last`. -/
structure Span where
  first : Nat
  last : Nat
  step : Nat

def Span.contains (span : Span) (code : Nat) : Bool :=
  span.first ≤ code && code ≤ span.last &&
    (code - span.first) % span.step == 0

/-- A character belongs to a class when some span of the table holds it. -/
def inSpans (spans : List Span) (c : Char) : Bool :=
  spans.any (·.contains c.toNat)

end ModuleRecovery.Text
