import RubyFormat.Doc.Basic
import RubyFormat.Text.Blank

/-!
# From a document to its text

There is no line width: a group is flat unless it has a hard line, and lines outside of all groups
break.  The pieces of a document are written one behind the other, and a break looks back at what is
written already: single blanks right before it are dropped.  In the end the text is taken apart into
its lines, and a line of white space becomes empty.

`Doc.render` gives the text for every width of indentation.  `Doc.write` refuses a width with which
the blanks at some break cannot be counted in a word.  How much memory there is for them is left
open.
-/

namespace RubyFormat

/-- A step of writing a document: a piece of text, or a break to a line of the given depth. -/
inductive Piece where
  | text (value : String)
  | newline (level : Nat)
  deriving DecidableEq, Repr

/--
What is written when a piece comes behind the pieces written before it, each list given last piece
first.
-/
def Piece.write (width : Int) (written : List String) : Piece → List String
  | .text value => value :: written
  | .newline level =>
      String.ofList ('\n' :: List.replicate (width * level).toNat ' ')
        :: written.dropWhile (· == " ")

/-- The characters of pieces that are given last piece first. -/
def Text.joined (written : List String) : List Char :=
  written.reverse.flatMap String.toList

/-- A line as it is kept: white space alone is not. -/
def Text.keptLine (line : List Char) : List Char :=
  if line.all isBlank then [] else line

namespace Doc

mutual

/-- The pieces of a document at a depth, within a broken or a flat group. -/
def pieces (level : Nat) (broken : Bool) : Doc → List Piece
  | .text value => [.text value]
  | .concat parts => piecesOfParts level broken parts
  | .group contents => pieces level contents.hasHardLine contents
  | .indent contents => pieces (level + 1) broken contents
  | .line hard => if hard || broken then [.newline level] else [.text " "]

/-- The pieces of documents in a row. -/
def piecesOfParts (level : Nat) (broken : Bool) : List Doc → List Piece
  | [] => []
  | part :: rest => pieces level broken part ++ piecesOfParts level broken rest

end

@[simp]
theorem piecesOfParts_eq_flatMap (level : Nat) (broken : Bool) (parts : List Doc) :
    piecesOfParts level broken parts = parts.flatMap (pieces level broken) := by
  induction parts with
  | nil => rfl
  | cons part rest ih => simp [piecesOfParts, ih]

/-- The text of a document with the given width of indentation. -/
def render (width : Int) (doc : Doc) : String :=
  let written := Text.joined ((doc.pieces 0 true).foldl (Piece.write width) [])
  String.ofList (['\n'].intercalate ((Text.lines written).map Text.keptLine))

end Doc

/-! ## Limits of indentation -/

/-- Why a document cannot be written with some width of indentation. -/
inductive WidthError where
  /-- The number of blanks at a break does not fit into a word. -/
  | notCountable
  deriving DecidableEq, Repr

/-- The wording of an error. -/
def WidthError.message : WidthError → String
  | .notCountable => "cannot fit 'int' into an index-sized integer"

/-- A number of blanks is counted in a word of 64 bits with sign. -/
def isCountable (blanks : Int) : Bool :=
  -0x8000000000000000 ≤ blanks && blanks < 0x8000000000000000

/-- Why the break that a piece makes cannot be written. -/
def Piece.widthError? (width : Int) : Piece → Option WidthError
  | .text _ => none
  | .newline level => if isCountable (width * level) then none else some .notCountable

namespace Doc

/-- Why a document cannot be written with the given width of indentation. -/
def widthError? (width : Int) (doc : Doc) : Option WidthError :=
  (doc.pieces 0 true).findSome? (Piece.widthError? width)

/-- The text of a document, if the width of indentation allows it. -/
def write (width : Int) (doc : Doc) : Except WidthError String :=
  match doc.widthError? width with
  | some error => .error error
  | none => .ok (doc.render width)

end Doc

end RubyFormat
