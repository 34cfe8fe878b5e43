import RubyFormat.Proofs.Lexed

/-!
# Nothing of a source is lost

A source is cut into its tokens and the gaps before them: put together again they are the source, up
to the mark that ends the program.  Between two tokens of a line there are only blanks and
backslashes before line breaks, and the token behind such a gap knows of it.  A comment is cut
without the white space at its end, which therefore stands in the gap behind the comment.
-/

namespace RubyFormat

/-- The characters of a token in a source; a symbol has its colon there. -/
def Token.spelling (token : Token) : List Char :=
  match token.kind with
  | .symbol => ':' :: token.text.toList
  | _ => token.text.toList

/-- Whether a text is made of blanks, tabs, carriage returns and continued lines. -/
def isGapText : List Char → Bool
  | [] => true
  | '\\' :: '\n' :: rest => isGapText rest
  | c :: rest => Tokens.isGap c && isGapText rest

/-- A token of a source and the gap before it. -/
structure Slice where
  gap : List Char
  token : Token

namespace Slice

/-- The characters of a slice. -/
def chars (slice : Slice) : List Char :=
  slice.gap ++ slice.token.spelling

/-- Whether the gap of a slice can stand behind a token: behind a comment it is the white space that
the comment has lost, elsewhere it is made of gaps, and the token knows whether there is one. -/
def FitsBehind (previous : Option Token) (slice : Slice) : Prop :=
  match previous.filter (·.kind == .comment) with
  | some comment =>
      '\n' ∉ slice.gap ∧
        Text.trimRight (comment.text.toList ++ slice.gap) = comment.text.toList
  | none => isGapText slice.gap = true ∧ (slice.token.spaced = true ↔ slice.gap ≠ [])

/-- Every slice fits behind the one before it. -/
def Chain : Option Token → List Slice → Prop
  | _, [] => True
  | previous, slice :: rest => slice.FitsBehind previous ∧ Chain (some slice.token) rest

end Slice

/-! ## Slices of the text that is still to be scanned -/

/-- A text is cut into slices with the given tokens.  The gap of the first slice may go on with one
that has already been passed, and what is left over starts with the mark that ends the program. -/
def Tokens.Sliced (passed : Bool) (text : List Char) (tokens : Tokens) : Prop :=
  ∃ (first : Slice) (slices : List Slice) (rest : List Char),
    tokens.toList = first.token :: slices.map Slice.token ∧
      text = first.chars ++ slices.flatMap Slice.chars ++ rest ∧
      isGapText first.gap = true ∧
      (first.token.spaced = true ↔ passed = true ∨ first.gap ≠ []) ∧
      Slice.Chain (some first.token) slices ∧
      (rest = [] ∨ isEndMark rest = true ∧ tokens.close.pos.col = 1)

namespace Tokens.Sliced

variable {passed : Bool} {text : List Char} {tokens : Tokens}

/-- Nothing is left but the mark that ends the program, if there is one. -/
theorem close {pos : Pos} (ends : text = [] ∨ isEndMark text = true ∧ pos.col = 1) :
    Sliced passed text ⟨[], ⟨.eof, "", pos, passed⟩⟩ := by
  refine ⟨⟨[], ⟨.eof, "", pos, passed⟩⟩, [], text, rfl, rfl, rfl, ?_, trivial, ends⟩
  simp

/-- A gap is passed. -/
theorem gap {before : List Char} (some : before ≠ [])
    (longer : ∀ text, isGapText text = true → isGapText (before ++ text) = true)
    (sliced : Sliced true text tokens) : Sliced passed (before ++ text) tokens := by
  obtain ⟨first, slices, rest, all, same, isGap, spaced, chain, ends⟩ := sliced
  refine ⟨⟨before ++ first.gap, first.token⟩, slices, rest, all, ?_, longer _ isGap, ?_, chain, ends⟩
  · rw [same]
    simp [Slice.chars]
  · have isSpaced : first.token.spaced = true := spaced.2 (.inl rfl)
    simp [isSpaced, some]

/-- A token is made that is no comment. -/
theorem made {token : Token} {whole : List Char} (noComment : token.kind ≠ .comment)
    (spelled : whole = token.spelling ++ text) (sliced : Sliced false text tokens) :
    Sliced token.spaced whole (tokens.cons token) := by
  obtain ⟨first, slices, rest, all, same, isGap, spaced, chain, ends⟩ := sliced
  refine ⟨⟨[], token⟩, first :: slices, rest, ?_, ?_, rfl, by simp, ⟨?_, chain⟩, ends⟩
  · rw [toList_cons, all, List.map_cons]
  · rw [spelled, same]
    simp [Slice.chars]
  · have behind : (some token).filter (·.kind == .comment) = none := by simp [noComment]
    simp only [Slice.FitsBehind, behind]
    exact ⟨isGap, by simpa using spaced⟩

/-- No gap starts at the end of a line. -/
theorem gap_eq_nil {before : List Char} (gapText : isGapText before = true)
    (begins : before <+: text) (line : text = [] ∨ text.head? = some '\n') : before = [] := by
  obtain ⟨rest, rfl⟩ := begins
  cases before with
  | nil => rfl
  | cons c more =>
      rcases line with isNil | newline
      · cases isNil
      · obtain rfl : c = '\n' := by simpa using newline
        simp [isGapText, isGap] at gapText

/-- A comment is made at the end of a line. -/
theorem comment {token : Token} {blanks whole : List Char} (isComment : token.kind = .comment)
    (single : '\n' ∉ blanks)
    (trimmed : Text.trimRight (token.text.toList ++ blanks) = token.text.toList)
    (line : text = [] ∨ text.head? = some '\n') (spelled : whole = token.spelling ++ blanks ++ text)
    (sliced : Sliced passed text tokens) : Sliced token.spaced whole (tokens.cons token) := by
  obtain ⟨first, slices, rest, all, same, isGap, spaced, chain, ends⟩ := sliced
  have noGap : first.gap = [] := by
    refine gap_eq_nil isGap ⟨first.token.spelling ++ (slices.flatMap Slice.chars ++ rest), ?_⟩ line
    rw [same]
    simp [Slice.chars]
  refine ⟨⟨[], token⟩, ⟨blanks, first.token⟩ :: slices, rest, ?_, ?_, rfl, by simp, ⟨?_, chain⟩, ends⟩
  · rw [toList_cons, all, List.map_cons]
  · rw [spelled, same]
    simp [Slice.chars, noGap]
  · have behind : (some token).filter (·.kind == .comment) = some token := by simp [isComment]
    simp only [Slice.FitsBehind, behind]
    exact ⟨single, trimmed⟩

end Tokens.Sliced

/-! ## Slices of a source -/

/-- A line is what is left of it when it is trimmed on the right, and the white space behind that. -/
theorem Text.exists_trimRight (line : List Char) :
    ∃ blanks, line = trimRight line ++ blanks ∧
      trimRight (trimRight line ++ blanks) = trimRight line := by
  refine ⟨(line.reverse.takeWhile isBlank).reverse, ?_⟩
  have whole : trimRight line ++ (line.reverse.takeWhile isBlank).reverse = line := by
    rw [trimRight, ← List.reverse_append, List.takeWhile_append_dropWhile, List.reverse_reverse]
  exact ⟨whole.symm, by rw [whole]⟩

/-- A text starts with a line, behind which it ends or breaks. -/
theorem Text.exists_line (text : List Char) :
    ∃ line rest, text = line ++ rest ∧ text.takeWhile (· != '\n') = line ∧ '\n' ∉ line ∧
      (rest = [] ∨ rest.head? = some '\n') := by
  induction text with
  | nil => exact ⟨[], [], rfl, rfl, nofun, .inl rfl⟩
  | cons c text ih =>
      by_cases isBreak : c = '\n'
      · exact ⟨[], c :: text, rfl, by simp [isBreak], nofun, .inr (by simp [isBreak])⟩
      · obtain ⟨line, rest, rfl, isLine, single, ends⟩ := ih
        refine ⟨c :: line, rest, rfl, by simp [isBreak, isLine], ?_, ends⟩
        simp [single, Ne.symm isBreak]

/-- The token that a lexeme makes is spelled as the text that it is found in. -/
theorem Lexeme.spelling_text {previous : Option Token} {first : Char} {tail : List Char}
    {lexeme : Lexeme} (found : find previous first tail = .ok lexeme) (pos : Pos) (spaced : Bool) :
    Token.spelling ⟨lexeme.kind, lexeme.text first tail, pos, spaced⟩ =
      first :: tail.take lexeme.extra := by
  obtain ⟨kind, extra⟩ := lexeme
  unfold Token.spelling Lexeme.text
  split
  next isSymbol =>
    obtain rfl : kind = .symbol := isSymbol
    obtain ⟨rfl, -⟩ := symbol?_of_find found
    simp
  next noSymbol =>
    split
    next isSymbol => exact absurd isSymbol noSymbol
    next => simp

namespace Tokens

/-- What is scanned is cut into slices. -/
theorem sliced_of_scan {inside : Nat} {previous : Option Token} {pos : Pos} {spaced : Bool}
    {text : List Char} {tokens : Tokens}
    (ran : scan inside previous pos spaced text = .ok tokens) :
    Sliced spaced (text.drop inside) tokens := by
  induction text generalizing inside previous pos spaced tokens with
  | nil =>
      obtain rfl := Except.ok.inj ran
      rw [List.drop_nil]
      exact .close (.inl rfl)
  | cons first tail ih =>
      unfold scan at ran
      split at ran
      · exact ih ran
      rw [List.drop_zero]
      split at ran
      next isBreak =>
        obtain ⟨rest, inner, rfl⟩ := map_cons_ok ran
        exact Sliced.made nofun (by simp [Token.spelling, isBreak]) (ih inner)
      split at ran
      next gapChar =>
        refine Sliced.gap (List.cons_ne_nil first []) (fun text gapText => ?_) (ih ran)
        have noBackslash : first ≠ '\\' := by
          rintro rfl
          cases gapChar
        rw [List.singleton_append, isGapText]
        · rw [gapChar, gapText, Bool.and_true]
        · exact fun _ isBackslash => absurd isBackslash noBackslash
      split at ran
      next continued =>
        obtain ⟨rfl, newline⟩ := continued
        obtain ⟨rest, rfl⟩ : ∃ rest, tail = '\n' :: rest := by
          cases tail with
          | nil => cases newline
          | cons c rest => exact ⟨rest, by simpa using newline⟩
        exact Sliced.gap (List.cons_ne_nil '\\' ['\n']) (fun text gapText => gapText) (ih ran)
      split at ran
      next isComment =>
        obtain ⟨rest, inner, rfl⟩ := map_cons_ok ran
        -- the comment takes the line; the white space that it loses is the gap behind it
        obtain ⟨line, more, rfl, isLine, single, ends⟩ := Text.exists_line tail
        simp only [isLine] at inner ⊢
        obtain ⟨blanks, whole, trimmed⟩ := Text.exists_trimRight (first :: line)
        have sliced := ih inner
        rw [List.drop_left] at sliced
        rw [List.take_left]
        have noBreak : '\n' ∉ blanks := by
          intro mem
          have inLine : '\n' ∈ first :: line := whole ▸ List.mem_append_right _ mem
          simp [isComment, single] at inLine
        refine sliced.comment rfl noBreak ?_ ends ?_
        · rw [String.toList_ofList, trimmed]
        · rw [Token.spelling, String.toList_ofList, ← whole]
          rfl
      split at ran
      next ends =>
        obtain rfl := Except.ok.inj ran
        exact .close (.inr ⟨ends.2, ends.1⟩)
      split at ran
      · cases ran
      next lexeme found =>
        obtain ⟨rest, inner, rfl⟩ := map_cons_ok ran
        refine Sliced.made (fun isComment => Lexeme.kind_notMem_of_find found ?_) ?_ (ih inner)
        · simp [show lexeme.kind = .comment from isComment]
        rw [Lexeme.spelling_text found, List.cons_append, List.take_append_drop]

/--
A source is made of its tokens and the gaps before them, up to the mark that ends the program.
-/
theorem slices_of_source {source : String} {tokens : Tokens} (lexed : ofSource source = .ok tokens) :
    ∃ (slices : List Slice) (rest : List Char), slices.map Slice.token = tokens.toList ∧
      source.toList = slices.flatMap Slice.chars ++ rest ∧ Slice.Chain none slices ∧
      (rest = [] ∨ isEndMark rest = true ∧ tokens.close.pos.col = 1) := by
  obtain ⟨first, slices, rest, all, same, gapText, spaced, chain, ends⟩ := sliced_of_scan lexed
  refine ⟨first :: slices, rest, all.symm, ?_, ⟨⟨gapText, by simpa using spaced⟩, chain⟩, ends⟩
  rw [List.drop_zero] at same
  rw [same, List.flatMap_cons]

/-- A symbol, a continued line, a comment with white space at its end, and the mark of the end. -/
theorem slices_of_source_marked :
    let source := "a  = :b \\\n # c \t\n__END__\nd"
    ∃ tokens, ofSource source = .ok tokens ∧
      ∃ (slices : List Slice) (rest : List Char), slices.map Slice.token = tokens.toList ∧
        source.toList = slices.flatMap Slice.chars ++ rest ∧
        Slice.Chain none slices ∧ (rest = [] ∨ isEndMark rest = true ∧ tokens.close.pos.col = 1) := by
  intro source
  cases lexed : ofSource source with
  | error error =>
      have found : (ofSource source).toOption.isSome = true := by decide +kernel
      rw [lexed] at found
      cases found
  | ok tokens => exact ⟨tokens, rfl, slices_of_source lexed⟩

end Tokens

end RubyFormat
