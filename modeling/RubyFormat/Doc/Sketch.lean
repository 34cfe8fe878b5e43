import RubyFormat.Doc.Render

/-!
# Layout expressions from outside

A sketch is the expression of a document as someone else writes it down, so it can hold things that
are no documents.  Building it gives the document, with an empty text for each such thing, and says
which of its leaves they are.  Every leaf of a document makes one piece of its text, so what stops a
writer first, a thing that is no document or a break that cannot be written, is found on the pieces
and the leaves side by side.
-/

namespace RubyFormat

/-- The expression of a document. -/
inductive Sketch where
  | text (value : String)
  | concat (parts : List Sketch)
  | join (separator : Sketch) (parts : List Sketch)
  | group (contents : Sketch)
  | indent (contents : Sketch)
  | line (hard : Bool)
  /-- Something that is no document, by the name of what it is. -/
  | foreign (typeName : String)
  deriving Repr, Inhabited

/-- The document of a sketch. -/
structure Built where
  doc : Doc
  /-- For each leaf of the document in turn, the name of what it is if it is no document. -/
  leaves : List (Option String)
  deriving Repr

/-- Why a sketch cannot be written. -/
inductive SketchError where
  /-- Something is no document, by the name of what it is. -/
  | foreign (typeName : String)
  | width (error : WidthError)
  deriving DecidableEq, Repr

/-- The wording of an error. -/
def SketchError.message : SketchError → String
  | .foreign typeName => "unhandled doc type: " ++ typeName
  | .width error => error.message

namespace Built

/-- Apply a builder of documents. -/
def map (f : Doc → Doc) (built : Built) : Built :=
  { built with doc := f built.doc }

/-- Put documents in a row. -/
def concat (parts : List Built) : Built :=
  ⟨.concat (parts.map (·.doc)), parts.flatMap (·.leaves)⟩

/-- The document, if nothing in it is none. -/
def checked (built : Built) : Except SketchError Doc :=
  match built.leaves.findSome? id with
  | some typeName => .error (.foreign typeName)
  | none => .ok built.doc

/-- What stops a writer at a leaf that makes the piece. -/
def stop? (width : Int) (leaf : Option String) (piece : Piece) : Option SketchError :=
  match leaf with
  | some typeName => some (.foreign typeName)
  | none => (piece.widthError? width).map .width

/-- The text of the document, if nothing stops a writer. -/
def write (width : Int) (built : Built) : Except SketchError String :=
  match (built.leaves.zipWith (stop? width) (built.doc.pieces 0 true)).findSome? id with
  | some error => .error error
  | none => .ok (built.doc.render width)

end Built

namespace Sketch

mutual

/-- Build the document of a sketch. -/
def build : Sketch → Built
  | .text value => ⟨.text value, [none]⟩
  | .concat parts => .concat (buildAll parts)
  | .join separator parts => .concat ((buildAll parts).intersperse (build separator))
  | .group contents => (build contents).map .group
  | .indent contents => (build contents).map .indent
  | .line hard => ⟨.line hard, [none]⟩
  | .foreign typeName => ⟨.text "", [some typeName]⟩

/-- Build the documents of sketches. -/
def buildAll : List Sketch → List Built
  | [] => []
  | part :: rest => build part :: buildAll rest

end

end Sketch

end RubyFormat
