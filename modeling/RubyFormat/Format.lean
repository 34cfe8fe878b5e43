import RubyFormat.Doc.Render
import RubyFormat.Draft.Layout
import RubyFormat.Parse.Program
import RubyFormat.Pragma

/-!
# Formatting a source

A source is parsed, its tree is laid out, and the document is rendered.  Pragmas of the source add
to the options; one of them asks to leave the source as it is.
-/

namespace RubyFormat

/-- Why a source cannot be formatted. -/
inductive FormatError where
  | source (error : SourceError)
  /-- The tree has a fault. -/
  | layout (fault : Fault)
  | width (error : WidthError)
  deriving DecidableEq, Repr

/-- The wording of an error. -/
def FormatError.message : FormatError → String
  | .source error => error.message
  | .layout fault => fault.message
  | .width error => error.message

/-- The document of a source. -/
def Doc.ofSource (options : Options) (source : String) : Except FormatError Doc :=
  match Node.ofSource source with
  | .error error => .error (.source error)
  | .ok tree => (tree.toDoc options).mapError .layout

/-- The formatted text of a source. -/
def format (options : Options) (source : String) : Except FormatError String :=
  let pragmas := Pragmas.ofSource source
  if pragmas.skip then
    .ok source
  else
    match Doc.ofSource (pragmas.apply options) source with
    | .error error => .error error
    | .ok doc => (doc.write options.indentWidth).mapError .width

end RubyFormat
