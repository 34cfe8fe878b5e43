/-!
# Layout documents

A document says how a text may be broken into lines.  It is made of five things: a piece of text,
documents in a row, a group, an indented document, and a line.  A line is a blank when its group
stays flat and a line break otherwise; a hard line always breaks, and every group around it then
breaks too.
-/

namespace RubyFormat

/-- A layout document. -/
inductive Doc where
  | text (value : String)
  | concat (parts : List Doc)
  | group (contents : Doc)
  | indent (contents : Doc)
  | line (hard : Bool)
  deriving Repr, Inhabited

/-- A string stands for the piece of text. -/
instance : Coe String Doc := ⟨Doc.text⟩

namespace Doc

/-- A line that can stay flat. -/
def softLine : Doc := .line false

/-- A line that always breaks. -/
def hardLine : Doc := .line true

/-- Documents in a row with a separator between each two of them. -/
def join (separator : Doc) (parts : List Doc) : Doc :=
  .concat (parts.intersperse separator)

mutual

/-- Whether a document has a hard line at any depth. -/
def hasHardLine : Doc → Bool
  | .text _ => false
  | .concat parts => anyHardLine parts
  | .group contents => hasHardLine contents
  | .indent contents => hasHardLine contents
  | .line hard => hard

/-- Whether one of the documents has a hard line. -/
def anyHardLine : List Doc → Bool
  | [] => false
  | part :: rest => hasHardLine part || anyHardLine rest

end

@[simp]
theorem anyHardLine_eq_any (parts : List Doc) : anyHardLine parts = parts.any hasHardLine := by
  induction parts with
  | nil => rfl
  | cons part rest ih => simp [anyHardLine, ih]

end Doc

end RubyFormat
