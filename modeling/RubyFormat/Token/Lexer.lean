import RubyFormat.Text.Blank
import RubyFormat.Token.Lexeme

/-!
# From a source to its tokens

The scanner walks through the characters of a source with the place it has reached, the token it
made last, and whether it has passed a blank since then.
-/

namespace RubyFormat

/-- A lexeme that cannot be read, with the place where it starts. -/
structure LexError where
  cause : LexCause
  pos : Pos
  deriving DecidableEq, Repr

namespace Tokens

/-- Whether the line that starts here is the mark that ends the program. -/
def isEndMark (text : List Char) : Bool :=
  "__END__".toList.isPrefixOf text &&
    ((text.drop 7).head? == none || (text.drop 7).head? == some '\n')

/-- Whether a character separates tokens within a line. -/
def isGap (c : Char) : Bool :=
  c == ' ' || c == '\t' || c == '\r'

/--
The tokens of the rest of a source.  The first `inside` characters belong to the token made last
and are passed over; the place is the one behind them.  A blank, and a backslash before a line
break, only set the `spaced` flag of the next token; a comment leaves the flag as it was.
-/
def scan (inside : Nat) (previous : Option Token) (pos : Pos) (spaced : Bool) :
    List Char → Except LexError Tokens
  | [] => .ok ⟨[], ⟨.eof, "", pos, spaced⟩⟩
  | first :: tail =>
      match inside with
      | inside + 1 => scan inside previous pos spaced tail
      | 0 =>
        if first = '\n' then
          let token : Token := ⟨.newline, "\n", pos, spaced⟩
          (scan 0 (some token) pos.nextLine false tail).map (cons token)
        else if isGap first then
          scan 0 previous (pos.right 1) true tail
        else if first = '\\' ∧ tail.head? = some '\n' then
          scan 1 previous pos.nextLine true tail
        else if first = '#' then
          let extra := (tail.takeWhile (· != '\n')).length
          let text := String.ofList (Text.trimRight (first :: tail.take extra))
          let token : Token := ⟨.comment, text, pos, spaced⟩
          (scan extra (some token) (pos.right (extra + 1)) spaced tail).map (cons token)
        else if pos.col = 1 ∧ isEndMark (first :: tail) then
          .ok ⟨[], ⟨.eof, "", pos, spaced⟩⟩
        else
          match Lexeme.find previous first tail with
          | .error cause => .error ⟨cause, pos⟩
          | .ok lexeme =>
              let token : Token := ⟨lexeme.kind, lexeme.text first tail, pos, spaced⟩
              (scan lexeme.extra (some token) (pos.right (lexeme.extra + 1)) false tail).map
                (cons token)

/-- Characters inside the last token are dropped. -/
theorem scan_eq_drop (inside : Nat) (previous : Option Token) (pos : Pos) (spaced : Bool)
    (text : List Char) :
    scan inside previous pos spaced text = scan 0 previous pos spaced (text.drop inside) := by
  induction text generalizing inside with
  | nil => simp [scan]
  | cons first tail ih =>
      cases inside with
      | zero => rfl
      | succ inside => simpa [scan] using ih inside

/-- The tokens of a source. -/
def ofSource (source : String) : Except LexError Tokens :=
  scan 0 none Pos.start false source.toList

end Tokens

end RubyFormat
