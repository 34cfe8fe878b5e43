import RubyFormat.Doc.Basic

/-!
# The written form of a document

The written form is the expression that builds the document.  Pieces of text stand between double
quotes, with a backslash before a backslash and a quote, and a newline as `\n`.
-/

namespace RubyFormat.Doc

/-- A text in which a backslash and a mark stand for each of the given character. -/
def escape (c mark : Char) (text : List Char) : List Char :=
  text.flatMap fun d => if d = c then ['\\', mark] else [d]

/-- A text between quotes; its own backslashes are escaped before others are put in. -/
def debugText (text : String) : List Char :=
  '"' :: escape '\n' 'n' (escape '"' '"' (escape '\\' '\\' text.toList)) ++ ['"']

mutual

/-- The characters of a document's written form. -/
def debugChars : Doc → List Char
  | .text value => debugText value
  | .concat parts => "concat([".toList ++ [',', ' '].intercalate (debugParts parts) ++ [']', ')']
  | .group contents => "group(".toList ++ debugChars contents ++ [')']
  | .indent contents => "indent(".toList ++ debugChars contents ++ [')']
  | .line true => "hardline".toList
  | .line false => "line".toList

/-- The written forms of documents. -/
def debugParts : List Doc → List (List Char)
  | [] => []
  | part :: rest => debugChars part :: debugParts rest

end

@[simp]
theorem debugParts_eq_map (parts : List Doc) : debugParts parts = parts.map debugChars := by
  induction parts with
  | nil => rfl
  | cons part rest ih => simp [debugParts, ih]

/-- The written form of a document. -/
def debug (doc : Doc) : String :=
  String.ofList doc.debugChars

end RubyFormat.Doc
