import RubyFormat.Text.CodeRange

/-!
# White space, lines and words

White space is the set of characters that separate words in any script; the zero-width space and
the byte-order mark do not belong to it.  Texts are taken apart here as lists of characters:
trimming removes white space from an end, and cutting divides a text at the characters of a class.
-/

namespace RubyFormat.Text

/-- The white space characters. -/
def blankRanges : List CodeRange := [
  ⟨0x09, 0x0D⟩, ⟨0x1C, 0x20⟩, ⟨0x85, 0x85⟩, ⟨0xA0, 0xA0⟩, ⟨0x1680, 0x1680⟩, ⟨0x2000, 0x200A⟩,
  ⟨0x2028, 0x2029⟩, ⟨0x202F, 0x202F⟩, ⟨0x205F, 0x205F⟩, ⟨0x3000, 0x3000⟩]

/-- Whether a character is white space. -/
def isBlank (c : Char) : Bool :=
  blankRanges.any (·.holds c.toNat)

/-- The text without the white space at its start. -/
def trimLeft (text : List Char) : List Char :=
  text.dropWhile isBlank

/-- The text without the white space at its end. -/
def trimRight (text : List Char) : List Char :=
  (text.reverse.dropWhile isBlank).reverse

/-- The text without the white space at its two ends. -/
def trim (text : List Char) : List Char :=
  trimRight (trimLeft text)

/--
Divide a text at every character of a class.  The dividing characters are dropped, and there is
one piece more than there are of them.
-/
def cut (divides : Char → Bool) : List Char → List (List Char)
  | [] => [[]]
  | c :: rest =>
      if divides c then
        [] :: cut divides rest
      else
        match cut divides rest with
        | [] => [[c]]
        | piece :: pieces => (c :: piece) :: pieces

/-- The lines of a text; a newline at the end opens one more, empty line. -/
def lines (text : List Char) : List (List Char) :=
  cut (· == '\n') text

/-- The words of a text, which the characters of a class keep apart. -/
def words (divides : Char → Bool) (text : List Char) : List (List Char) :=
  (cut divides text).filter fun word => !word.isEmpty

/-- A cut always leaves at least one piece. -/
theorem cut_ne_nil (divides : Char → Bool) (text : List Char) : cut divides text ≠ [] := by
  cases text with
  | nil => simp [cut]
  | cons c rest =>
      simp only [cut]
      split
      · simp
      · split <;> simp

/-- Putting the dividing newlines back between the lines restores the text. -/
theorem intercalate_lines (text : List Char) : ['\n'].intercalate (lines text) = text := by
  induction text with
  | nil => rfl
  | cons c rest ih =>
      simp only [lines, cut] at ih ⊢
      split
      · next isBreak =>
          have newline : c = '\n' := by simpa using isBreak
          cases pieces : cut (· == '\n') rest with
          | nil => exact absurd pieces (cut_ne_nil _ rest)
          | cons piece others =>
              rw [pieces] at ih
              simp [List.intercalate, List.intersperse, newline] at ih ⊢
              exact ih
      · cases pieces : cut (· == '\n') rest with
        | nil => exact absurd pieces (cut_ne_nil _ rest)
        | cons piece others =>
            rw [pieces] at ih
            cases others with
            | nil => simpa [List.intercalate, List.intersperse] using ih
            | cons next more => simpa [List.intercalate, List.intersperse] using ih

end RubyFormat.Text
