import RubyFormat.Options
import RubyFormat.Text.Blank

/-!
# Pragmas

A source can set options itself in the comments before its first line of code, within its first
five lines.  Such a comment starts with the name of the formatter and a colon, and the words behind
it stand between commas or white space.  Other words have no effect.
-/

namespace RubyFormat

/-- What the pragmas of a source ask for. -/
structure Pragmas where
  /-- Blocks are to be collapsed. -/
  toProc : Bool
  /-- The source is to be left as it is. -/
  skip : Bool
  deriving DecidableEq, Repr

namespace Pragmas

/-- The number of lines in which pragmas count. -/
def lineCount : Nat := 5

/-- What a comment starts with that is a pragma. -/
def mark : List Char := "garnet:".toList

/-- The words of a comment, given without its `#`, if it is a pragma. -/
def commentWords (comment : List Char) : List (List Char) :=
  let body := Text.trim comment
  if mark.isPrefixOf body then
    Text.words (fun c => Text.isBlank c || c == ',') (body.drop mark.length)
  else
    []

/-- The words of all pragmas before the first line of code. -/
def lineWords : List (List Char) → List (List Char)
  | [] => []
  | line :: rest =>
      match Text.trim line with
      | [] => lineWords rest
      | '#' :: comment => commentWords comment ++ lineWords rest
      | _ :: _ => []

/-- The pragmas of a source. -/
def ofSource (source : String) : Pragmas :=
  let words := lineWords ((Text.lines source.toList).take lineCount)
  ⟨words.contains "to-proc".toList, words.contains "skip".toList⟩

/-- The options with what the pragmas add to them. -/
def apply (pragmas : Pragmas) (options : Options) : Options :=
  { options with toProc := options.toProc || pragmas.toProc }

end Pragmas

end RubyFormat
