/-!
# Ranges of code points

Classes of characters that no rule describes are given as tables of closed ranges.
-/

namespace RubyFormat.Text

/-- A closed range of code points. -/
structure CodeRange where
  first : Nat
  last : Nat
  deriving DecidableEq, Repr

/-- Whether the range holds the code point. -/
def CodeRange.holds (range : CodeRange) (code : Nat) : Bool :=
  range.first ≤ code && code ≤ range.last

end RubyFormat.Text
