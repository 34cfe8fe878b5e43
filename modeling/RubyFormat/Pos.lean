/-!
# Places in a source text

A place is a line and a column, both counted from one; columns count characters.
-/

namespace RubyFormat

/-- A place in a source text. -/
structure Pos where
  line : Nat
  col : Nat
  deriving DecidableEq, Repr, Inhabited

namespace Pos

/-- The place of the first character. -/
def start : Pos := ⟨1, 1⟩

/-- The place some characters further on the same line. -/
def right (pos : Pos) (count : Nat) : Pos :=
  { pos with col := pos.col + count }

/-- The first place of the next line. -/
def nextLine (pos : Pos) : Pos :=
  ⟨pos.line + 1, 1⟩

/-- A message followed by the place that it speaks of. -/
def locate (pos : Pos) (message : String) : String :=
  message ++ " at line " ++ toString pos.line ++ " col " ++ toString pos.col

end Pos

end RubyFormat
