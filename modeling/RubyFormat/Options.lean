/-!
# Formatting options
-/

namespace RubyFormat

/-- The options of a formatting run. -/
structure Options where
  /-- Whether a block that only sends one message to its parameter becomes `&:message`. -/
  toProc : Bool := false
  /-- The number of blanks for each level of indentation; none if it is not positive. -/
  indentWidth : Int := 2
  deriving DecidableEq, Repr, Inhabited

end RubyFormat
