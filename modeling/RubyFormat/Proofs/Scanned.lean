import RubyFormat.Proofs.Lossless
import RubyFormat.Proofs.Spelling

/-!
# The steps of the scanner

`Scanned` is the scanner as a relation, one rule for each thing that can stand at the place that has
been reached.  It also gives the text that is left over, which is empty unless the mark that ends the
program has been met.  However a source is cut into its tokens and the gaps before them, the cut
follows these steps, and the same text is left over.
-/

namespace RubyFormat

/-- The comment that a line makes, given the characters behind its `#`. -/
def Token.ofComment (line : List Char) (pos : Pos) (spaced : Bool) : Token :=
  ⟨.comment, String.ofList (Text.trimRight ('#' :: line)), pos, spaced⟩

/-- The line break that stands at a place. -/
def Token.ofBreak (pos : Pos) (spaced : Bool) : Token :=
  ⟨.newline, "\n", pos, spaced⟩

/-- The token that a lexeme makes. -/
def Token.ofLexeme (kind : TokenKind) (first : Char) (body : List Char) (pos : Pos) (spaced : Bool) :
    Token :=
  ⟨kind, Lexeme.text ⟨kind, body.length⟩ first body, pos, spaced⟩

namespace Tokens

/-- The end of a source at a place. -/
def closeAt (pos : Pos) (spaced : Bool) : Tokens :=
  ⟨[], ⟨.eof, "", pos, spaced⟩⟩

/-- A text is scanned from a place on, behind a token and perhaps a gap, into tokens and what is left
over. -/
inductive Scanned : Option Token → Pos → Bool → List Char → Tokens → List Char → Prop where
  | done {previous : Option Token} {pos : Pos} {spaced : Bool} :
      Scanned previous pos spaced [] (closeAt pos spaced) []
  | mark {previous : Option Token} {pos : Pos} {spaced : Bool} {text : List Char}
      (atStart : pos.col = 1) (isMark : isEndMark text = true) :
      Scanned previous pos spaced text (closeAt pos spaced) text
  | newline {previous : Option Token} {pos : Pos} {spaced : Bool} {tail left : List Char}
      {tokens : Tokens}
      (more : Scanned (some (.ofBreak pos spaced)) pos.nextLine false tail tokens left) :
      Scanned previous pos spaced ('\n' :: tail) (tokens.cons (.ofBreak pos spaced)) left
  | gap {previous : Option Token} {pos : Pos} {spaced : Bool} {c : Char} {tail left : List Char}
      {tokens : Tokens} (blank : isGap c = true)
      (more : Scanned previous (pos.right 1) true tail tokens left) :
      Scanned previous pos spaced (c :: tail) tokens left
  | continued {previous : Option Token} {pos : Pos} {spaced : Bool} {tail left : List Char}
      {tokens : Tokens} (more : Scanned previous pos.nextLine true tail tokens left) :
      Scanned previous pos spaced ('\\' :: '\n' :: tail) tokens left
  | comment {previous : Option Token} {pos : Pos} {spaced : Bool} {line tail left : List Char}
      {tokens : Tokens} (single : '\n' ∉ line) (ends : tail = [] ∨ tail.head? = some '\n')
      (more : Scanned (some (.ofComment line pos spaced)) (pos.right (line.length + 1)) spaced tail
        tokens left) :
      Scanned previous pos spaced ('#' :: (line ++ tail)) (tokens.cons (.ofComment line pos spaced))
        left
  | lexeme {previous : Option Token} {pos : Pos} {spaced : Bool} {first : Char}
      {body tail left : List Char} {tokens : Tokens} {kind : TokenKind}
      (noMark : ¬ (pos.col = 1 ∧ isEndMark (first :: (body ++ tail)) = true))
      (found : Lexeme.find previous first (body ++ tail) = .ok ⟨kind, body.length⟩)
      (more : Scanned (some (.ofLexeme kind first body pos spaced)) (pos.right (body.length + 1)) false
        tail tokens left) :
      Scanned previous pos spaced (first :: (body ++ tail))
        (tokens.cons (.ofLexeme kind first body pos spaced)) left

/-- Every run of the scanner is made of such steps. -/
theorem exists_scanned {inside : Nat} {previous : Option Token} {pos : Pos} {spaced : Bool}
    {text : List Char} {tokens : Tokens}
    (ran : scan inside previous pos spaced text = .ok tokens) :
    ∃ left, Scanned previous pos spaced (text.drop inside) tokens left := by
  induction text generalizing inside previous pos spaced tokens with
  | nil =>
      obtain rfl := Except.ok.inj ran
      rw [List.drop_nil]
      exact ⟨[], .done⟩
  | cons first tail ih =>
      unfold scan at ran
      split at ran
      · exact ih ran
      rw [List.drop_zero]
      split at ran
      next isBreak =>
        obtain ⟨rest, inner, rfl⟩ := map_cons_ok ran
        obtain ⟨left, scanned⟩ := ih inner
        rw [isBreak]
        exact ⟨left, .newline scanned⟩
      split at ran
      next blank =>
        obtain ⟨left, scanned⟩ := ih ran
        exact ⟨left, .gap blank scanned⟩
      split at ran
      next isContinued =>
        obtain ⟨rfl, newline⟩ := isContinued
        obtain ⟨rest, rfl⟩ := List.head?_eq_some_iff.1 newline
        obtain ⟨left, scanned⟩ := ih ran
        exact ⟨left, .continued scanned⟩
      split at ran
      next isComment =>
        obtain ⟨rest, inner, rfl⟩ := map_cons_ok ran
        subst isComment
        obtain ⟨line, more, rfl, isLine, single, ends⟩ := Text.exists_line tail
        simp only [isLine, List.take_left] at inner ⊢
        obtain ⟨left, scanned⟩ := ih inner
        rw [List.drop_left] at scanned
        exact ⟨left, .comment single ends scanned⟩
      split at ran
      next isMark =>
        obtain rfl := Except.ok.inj ran
        exact ⟨first :: tail, .mark isMark.1 isMark.2⟩
      next noMark =>
        split at ran
        · cases ran
        next lexeme found =>
          obtain ⟨rest, inner, rfl⟩ := map_cons_ok ran
          obtain ⟨kind, extra⟩ := lexeme
          -- the lexeme is cut off the text that it was found in
          obtain ⟨body, more, rfl, rfl⟩ : ∃ body more, tail = body ++ more ∧ body.length = extra :=
            ⟨tail.take extra, tail.drop extra, (List.take_append_drop extra tail).symm,
              List.length_take_of_le (Lexeme.find_le found)⟩
          have sameText : Lexeme.text ⟨kind, body.length⟩ first (body ++ more) =
              Lexeme.text ⟨kind, body.length⟩ first body := by
            simp only [Lexeme.text, List.take_left, List.take_length]
          rw [sameText] at inner ⊢
          obtain ⟨left, scanned⟩ := ih inner
          rw [List.drop_left] at scanned
          exact ⟨left, .lexeme noMark found scanned⟩

end Tokens

/-! ## Cuts of a source -/

/-- A text is cut into slices that have the given tokens, up to a rest that is empty or starts with
the mark that ends the program. -/
structure Tokens.Cut (text : List Char) (tokens : Tokens) (slices : List Slice) (rest : List Char) :
    Prop where
  all : slices.map Slice.token = tokens.toList
  whole : text = slices.flatMap Slice.chars ++ rest
  chain : Slice.Chain none slices
  ends : rest = [] ∨ isEndMark rest = true ∧ tokens.close.pos.col = 1

/-- The text behind a token is cut into slices.  The gap of the first of them is no white space that a
comment has lost. -/
structure Tokens.CutBehind (text : List Char) (tokens : Tokens) (first : Slice) (slices : List Slice)
    (rest : List Char) : Prop where
  all : tokens.toList = first.token :: slices.map Slice.token
  whole : text = first.gap ++ (first.token.spelling ++ (slices.flatMap Slice.chars ++ rest))
  gapText : isGapText first.gap = true
  chain : Slice.Chain (some first.token) slices
  ends : rest = [] ∨ isEndMark rest = true ∧ tokens.close.pos.col = 1

/-- A source can be cut into its tokens. -/
theorem Tokens.exists_cut {source : String} {tokens : Tokens} (lexed : ofSource source = .ok tokens) :
    ∃ slices rest, Cut source.toList tokens slices rest := by
  obtain ⟨first, slices, rest, all, same, gapText, spaced, chain, ends⟩ := sliced_of_scan lexed
  rw [List.drop_zero] at same
  refine ⟨first :: slices, rest, all.symm, by rw [same, List.flatMap_cons], ⟨⟨gapText, ?_⟩, chain⟩,
    ends⟩
  simpa using spaced

/-- A cut has a first slice, even if it is that of the end of the source. -/
theorem Tokens.Cut.exists_behind {text : List Char} {tokens : Tokens} {slices : List Slice}
    {rest : List Char} (cut : Cut text tokens slices rest) :
    ∃ first more, slices = first :: more ∧ CutBehind text tokens first more rest := by
  cases slices with
  | nil =>
      have none := cut.all
      simp [toList] at none
  | cons first more =>
      refine ⟨first, more, rfl, cut.all.symm, ?_, cut.chain.1.1, cut.chain.2, cut.ends⟩
      rw [cut.whole, List.flatMap_cons, Slice.chars]
      simp

theorem isGapText_cons {c : Char} {text : List Char} (gapText : isGapText (c :: text) = true) :
    (Tokens.isGap c = true ∧ isGapText text = true) ∨
      ∃ more, c = '\\' ∧ text = '\n' :: more ∧ isGapText more = true := by
  unfold isGapText at gapText
  split at gapText
  next same => cases same
  next same =>
    obtain ⟨rfl, rfl⟩ := List.cons.inj same
    exact .inr ⟨_, rfl, rfl, gapText⟩
  next same =>
    obtain ⟨rfl, rfl⟩ := List.cons.inj same
    exact .inl (Bool.and_eq_true_iff.1 gapText)

/-- A character that is no white space stays when the text behind it is trimmed. -/
theorem Text.trimRight_cons {c : Char} (solid : isBlank c = false) (text : List Char) :
    trimRight (c :: text) = c :: trimRight text := by
  rw [trimRight, trimRight, List.reverse_cons, List.dropWhile_append]
  cases rest : text.reverse.dropWhile isBlank with
  | nil => simp [solid]
  | cons last rest => simp

/-- Two texts with line breaks behind their first lines have the same first line. -/
theorem Text.eq_of_append_break {line other more rest : List Char} (single : '\n' ∉ line)
    (singleToo : '\n' ∉ other) (same : line ++ '\n' :: more = other ++ '\n' :: rest) :
    line = other ∧ more = rest := by
  have first {line : List Char} (single : '\n' ∉ line) (more : List Char) :
      (line ++ '\n' :: more).takeWhile (· != '\n') = line := by
    rw [List.takeWhile_append_of_pos]
    · simp
    · intro c mem
      simpa using fun isBreak : c = '\n' => single (isBreak ▸ mem)
  have lines : line = other := by
    rw [← first single more, same, first singleToo]
  subst lines
  exact ⟨rfl, (List.cons.inj (List.append_cancel_left same)).2⟩

namespace Tokens

/-- The mark that ends the program stands alone on its line. -/
theorem isEndMark_iff {text : List Char} :
    isEndMark text = true ↔
      ∃ rest, text = "__END__".toList ++ rest ∧ (rest = [] ∨ rest.head? = some '\n') := by
  have length : "__END__".toList.length = 7 := by decide
  simp only [isEndMark, Bool.and_eq_true, Bool.or_eq_true, beq_iff_eq, List.isPrefixOf_iff_prefix,
    List.head?_eq_none_iff]
  constructor
  · rintro ⟨⟨rest, rfl⟩, ends⟩
    rw [← length, List.drop_left] at ends
    exact ⟨rest, rfl, ends⟩
  · rintro ⟨rest, rfl, ends⟩
    rw [← length, List.drop_left]
    exact ⟨List.prefix_append _ _, ends⟩

/-- Whether a text goes on with a gap. -/
def startsGap : List Char → Bool
  | [] => false
  | c :: _ => isGap c || c == '\\'

theorem startsGap_of_isGapText {gap text : List Char} (gapText : isGapText gap = true)
    (some : gap ≠ []) : startsGap (gap ++ text) = true := by
  cases gap with
  | nil => exact absurd rfl some
  | cons c gap =>
      rcases isGapText_cons gapText with ⟨isGap, -⟩ | ⟨more, rfl, -⟩
      · simp [startsGap, isGap]
      · rfl

theorem startsGap_of_isEndMark {text : List Char} (isMark : isEndMark text = true) :
    startsGap text = false := by
  obtain ⟨rest, rfl, -⟩ := isEndMark_iff.1 isMark
  rfl

theorem startsGap_of_find {previous : Option Token} {first : Char} {text : List Char}
    {lexeme : Lexeme} (found : Lexeme.find previous first text = .ok lexeme) (more : List Char) :
    startsGap (first :: more) = false := by
  have others := Lexeme.ne_of_find found
  simp only [List.mem_cons, not_or] at others
  simp [startsGap, isGap, others]

/-- The characters of the token that a lexeme makes. -/
theorem spelling_ofLexeme {previous : Option Token} {first : Char} {body tail : List Char}
    {kind : TokenKind}
    (found : Lexeme.find previous first (body ++ tail) = .ok ⟨kind, body.length⟩) (pos : Pos)
    (spaced : Bool) : (Token.ofLexeme kind first body pos spaced).spelling = first :: body := by
  have spelled := Lexeme.spelling_text found pos spaced
  simp only [Lexeme.text, List.take_left] at spelled
  rw [← spelled, Token.ofLexeme, Lexeme.text, List.take_length]

theorem spelling_ofBreak (pos : Pos) (spaced : Bool) :
    (Token.ofBreak pos spaced).spelling = ['\n'] := by
  have spelled : "\n".toList = ['\n'] := by decide
  rw [Token.ofBreak, Token.spelling, spelled]

theorem spelling_close (pos : Pos) (spaced : Bool) :
    (closeAt pos spaced).close.spelling = [] := by
  have spelled : "".toList = [] := by decide
  rw [closeAt, Token.spelling, spelled]

theorem spelling_ofComment (line : List Char) (pos : Pos) (spaced : Bool) :
    (Token.ofComment line pos spaced).spelling = Text.trimRight ('#' :: line) := by
  rw [Token.ofComment, Token.spelling, String.toList_ofList]

/-- The characters of a first token do not start with a gap. -/
theorem Scanned.startsGap_spelling {previous : Option Token} {pos : Pos} {spaced : Bool}
    {text left : List Char} {tokens : Tokens} (scanned : Scanned previous pos spaced text tokens left)
    {token : Token} {others : List Token} (all : tokens.toList = token :: others)
    {rest : List Char} (ends : rest = [] ∨ isEndMark rest = true) (slices : List Slice)
    (same : slices.map Slice.token = others) :
    startsGap (token.spelling ++ (slices.flatMap Slice.chars ++ rest)) = false := by
  induction scanned with
  | done | mark =>
      obtain ⟨rfl, rfl⟩ := List.cons.inj all
      obtain rfl := List.map_eq_nil_iff.1 same
      rcases ends with rfl | isMark
      · rfl
      · exact startsGap_of_isEndMark isMark
  | newline more ih =>
      obtain ⟨rfl, -⟩ := List.cons.inj all
      rw [spelling_ofBreak]
      rfl
  | gap blank more ih | continued more ih => exact ih all
  | @comment _ pos spaced line _ _ _ single ends more ih =>
      obtain ⟨rfl, -⟩ := List.cons.inj all
      rw [spelling_ofComment, Text.trimRight_cons (by decide)]
      rfl
  | lexeme noMark found more ih =>
      obtain ⟨rfl, -⟩ := List.cons.inj all
      rw [spelling_ofLexeme found]
      exact startsGap_of_find found _

variable {previous : Option Token} {pos : Pos} {spaced : Bool} {text left : List Char}
  {tokens : Tokens} {first : Slice} {slices : List Slice} {rest : List Char}

/-- Where no gap starts there is none before the first token. -/
theorem CutBehind.gap_eq_nil (cut : CutBehind text tokens first slices rest)
    (noGap : startsGap text = false) : first.gap = [] := by
  by_contra some
  rw [cut.whole, startsGap_of_isGapText cut.gapText some] at noGap
  cases noGap

/-- Where a gap starts there is one before the first token. -/
theorem CutBehind.gap_ne_nil (cut : CutBehind text tokens first slices rest) {tail : List Char}
    (scanned : Scanned previous pos spaced tail tokens left) (isGap : startsGap text = true) :
    first.gap ≠ [] := by
  intro none
  have ends : rest = [] ∨ isEndMark rest = true := cut.ends.imp_right And.left
  have noGap := scanned.startsGap_spelling cut.all ends slices rfl
  rw [cut.whole, none, List.nil_append, noGap] at isGap
  cases isGap

/-- A cut of nothing but the end of a source. -/
theorem CutBehind.of_close (cut : CutBehind text (closeAt pos spaced) first slices rest)
    (noGap : startsGap text = false) :
    first = ⟨[], (closeAt pos spaced).close⟩ ∧ slices = [] ∧ rest = text := by
  obtain ⟨gap, token⟩ := first
  obtain rfl : gap = [] := cut.gap_eq_nil noGap
  obtain ⟨rfl, others⟩ := List.cons.inj cut.all
  obtain rfl := List.map_eq_nil_iff.1 others.symm
  have whole := cut.whole
  rw [spelling_close] at whole
  exact ⟨rfl, rfl, whole.symm⟩

/-- A cut goes on behind its first token with a slice for the next one. -/
theorem CutBehind.exists_next {token : Token}
    (cut : CutBehind text (tokens.cons token) first slices rest) (noGap : startsGap text = false) :
    ∃ next more, first = ⟨[], token⟩ ∧ slices = next :: more ∧
      tokens.toList = next.token :: more.map Slice.token ∧
      text = token.spelling ++ (next.gap ++ (next.token.spelling ++
        (more.flatMap Slice.chars ++ rest))) := by
  obtain ⟨gap, found⟩ := first
  obtain rfl : gap = [] := cut.gap_eq_nil noGap
  obtain ⟨rfl, others⟩ := List.cons.inj cut.all
  cases slices with
  | nil => simp at others
  | cons next more =>
      refine ⟨next, more, rfl, rfl, others, ?_⟩
      rw [cut.whole, List.flatMap_cons, Slice.chars]
      simp

/-- A cut behind a token that is no comment. -/
theorem CutBehind.behind {token : Token} (spelled : List Char)
    (cut : CutBehind (spelled ++ text) (tokens.cons token) first slices rest)
    (isSpelled : token.spelling = spelled) (noComment : token.kind ≠ .comment)
    (noGap : startsGap (spelled ++ text) = false) :
    ∃ next more, first = ⟨[], token⟩ ∧ slices = next :: more ∧
      CutBehind text tokens next more rest := by
  subst isSpelled
  obtain ⟨next, more, rfl, rfl, others, whole⟩ := cut.exists_next noGap
  have fits := cut.chain.1
  have behind : (some token).filter (·.kind == .comment) = none := by simp [noComment]
  simp only [Slice.FitsBehind, behind] at fits
  exact ⟨next, more, rfl, rfl, others, List.append_cancel_left whole, fits.1, cut.chain.2, cut.ends⟩

theorem CutBehind.behind_break
    (cut : CutBehind ('\n' :: text) (tokens.cons (.ofBreak pos spaced)) first slices rest) :
    ∃ next more, first = ⟨[], .ofBreak pos spaced⟩ ∧ slices = next :: more ∧
      CutBehind text tokens next more rest :=
  behind ['\n'] cut (spelling_ofBreak pos spaced) nofun rfl

theorem CutBehind.behind_lexeme {c : Char} {body : List Char} {kind : TokenKind}
    (found : Lexeme.find previous c (body ++ text) = .ok ⟨kind, body.length⟩)
    (cut : CutBehind (c :: (body ++ text)) (tokens.cons (.ofLexeme kind c body pos spaced)) first
      slices rest) :
    ∃ next more, first = ⟨[], .ofLexeme kind c body pos spaced⟩ ∧ slices = next :: more ∧
      CutBehind text tokens next more rest := by
  refine behind (c :: body) cut (spelling_ofLexeme found pos spaced) ?_
    (startsGap_of_find found _)
  intro isComment
  exact Lexeme.kind_notMem_of_find found (by simp [show kind = .comment from isComment])

/-- A cut whose first gap starts with a blank. -/
theorem CutBehind.behind_gap {c : Char} (isGap : isGap c = true)
    (scanned : Scanned previous pos spaced text tokens left)
    (cut : CutBehind (c :: text) tokens first slices rest) :
    ∃ gap, first.gap = c :: gap ∧ CutBehind text tokens ⟨gap, first.token⟩ slices rest := by
  have some := cut.gap_ne_nil scanned (by simp [startsGap, isGap])
  obtain ⟨all, whole, gapText, chain, ends⟩ := cut
  cases same : first.gap with
  | nil => exact absurd same some
  | cons d gap =>
      rw [same] at whole gapText
      obtain ⟨rfl, inner⟩ := List.cons.inj whole
      rcases isGapText_cons gapText with ⟨-, gapText⟩ | ⟨_, rfl, -⟩
      · exact ⟨gap, rfl, all, inner, gapText, chain, ends⟩
      · cases isGap

/-- A cut whose first gap starts with a continued line. -/
theorem CutBehind.behind_continued
    (scanned : Scanned previous pos spaced text tokens left)
    (cut : CutBehind ('\\' :: '\n' :: text) tokens first slices rest) :
    ∃ gap, first.gap = '\\' :: '\n' :: gap ∧
      CutBehind text tokens ⟨gap, first.token⟩ slices rest := by
  have some := cut.gap_ne_nil scanned rfl
  obtain ⟨all, whole, gapText, chain, ends⟩ := cut
  cases same : first.gap with
  | nil => exact absurd same some
  | cons c gap =>
      rw [same] at whole gapText
      obtain ⟨rfl, inner⟩ := List.cons.inj whole
      rcases isGapText_cons gapText with ⟨isGap, -⟩ | ⟨gap, -, rfl, gapText⟩
      · cases isGap
      · exact ⟨gap, rfl, all, (List.cons.inj inner).2, gapText, chain, ends⟩

/-- At the end of a line there is a line break or the end of the source. -/
theorem Scanned.first_of_line (scanned : Scanned previous pos spaced text tokens left)
    (line : text = [] ∨ text.head? = some '\n') :
    (text = [] ∧ tokens = closeAt pos spaced) ∨
      ∃ tail more, text = '\n' :: tail ∧ tokens = cons (.ofBreak pos spaced) more := by
  cases scanned with
  | done => exact .inl ⟨rfl, rfl⟩
  | mark atStart isMark =>
      obtain ⟨rest, rfl, -⟩ := isEndMark_iff.1 isMark
      rcases line with line | line <;> cases line
  | @newline _ _ _ tail _ more scanned => exact .inr ⟨tail, more, rfl, rfl⟩
  | gap blank scanned =>
      obtain rfl := Option.some.inj (line.resolve_left nofun)
      cases blank
  | continued scanned => rcases line with line | line <;> cases line
  | comment single ends scanned => rcases line with line | line <;> cases line
  | lexeme noMark found scanned =>
      obtain rfl := Option.some.inj (line.resolve_left nofun)
      exact absurd (Lexeme.ne_of_find found) (by decide)

/-- A cut behind a comment, whose white space at the end is the gap of the next slice. -/
theorem CutBehind.behind_comment {line : List Char} (single : '\n' ∉ line) (column : 0 < pos.col)
    (ends : text = [] ∨ text.head? = some '\n')
    (scanned : Scanned previous (pos.right (line.length + 1)) spaced text tokens left)
    (cut : CutBehind ('#' :: (line ++ text)) (tokens.cons (.ofComment line pos spaced)) first slices
      rest) :
    ∃ blanks token more, first = ⟨[], .ofComment line pos spaced⟩ ∧
      slices = ⟨blanks, token⟩ :: more ∧
      '#' :: line = Text.trimRight ('#' :: line) ++ blanks ∧
      CutBehind text tokens ⟨[], token⟩ more rest := by
  obtain ⟨⟨blanks, token⟩, more, rfl, rfl, others, whole⟩ := cut.exists_next rfl
  have fits : '\n' ∉ blanks := cut.chain.1.1
  rw [spelling_ofComment] at whole
  refine ⟨blanks, token, more, rfl, rfl, ?_⟩
  suffices same : '#' :: line = Text.trimRight ('#' :: line) ++ blanks ∧
      text = token.spelling ++ (more.flatMap Slice.chars ++ rest) from
    ⟨same.1, others, same.2, rfl, cut.chain.2, cut.ends⟩
  rcases scanned.first_of_line ends with ⟨rfl, rfl⟩ | ⟨tail, later, rfl, rfl⟩
  · obtain ⟨rfl, none⟩ := List.cons.inj others
    obtain rfl := List.map_eq_nil_iff.1 none.symm
    have atEnd : rest = [] := by
      refine cut.ends.resolve_right fun ends => ?_
      have col : pos.col + (line.length + 1) = 1 := ends.2
      omega
    subst atEnd
    rw [spelling_close] at whole ⊢
    simpa using whole
  · obtain ⟨rfl, -⟩ := List.cons.inj others
    rw [spelling_ofBreak] at whole ⊢
    have noBreak : '\n' ∉ Text.trimRight ('#' :: line) ++ blanks := by
      obtain ⟨lost, same, -⟩ := Text.exists_trimRight ('#' :: line)
      intro mem
      rcases List.mem_append.1 mem with mem | mem
      · have inLine : '\n' ∈ '#' :: line := same ▸ List.mem_append_left _ mem
        simp [single] at inLine
      · exact fits mem
    rw [← List.append_assoc, ← List.cons_append] at whole
    obtain ⟨lines, tails⟩ := Text.eq_of_append_break (by simp [single]) noBreak whole
    exact ⟨lines, by rw [tails]; rfl⟩

/-- What is left over is the same in every cut. -/
theorem Scanned.left_eq (scanned : Scanned previous pos spaced text tokens left)
    (column : 0 < pos.col) (cut : CutBehind text tokens first slices rest) : rest = left := by
  induction scanned generalizing first slices with
  | done => exact (cut.of_close rfl).2.2
  | mark atStart isMark => exact (cut.of_close (startsGap_of_isEndMark isMark)).2.2
  | newline more ih =>
      obtain ⟨next, others, -, -, inner⟩ := cut.behind_break
      exact ih Nat.one_pos inner
  | gap blank more ih =>
      obtain ⟨gap, -, inner⟩ := cut.behind_gap blank more
      exact ih (Nat.lt_succ_of_lt column) inner
  | continued more ih =>
      obtain ⟨gap, -, inner⟩ := cut.behind_continued more
      exact ih Nat.one_pos inner
  | comment single ends more ih =>
      obtain ⟨blanks, token, others, -, -, -, inner⟩ := cut.behind_comment single column ends more
      exact ih (Nat.lt_add_right _ column) inner
  | lexeme noMark found more ih =>
      obtain ⟨next, others, -, -, inner⟩ := cut.behind_lexeme found
      exact ih (Nat.lt_add_right _ column) inner

/-- A cut of a source leaves what the scanner leaves. -/
theorem Cut.scanned {source : String} (lexed : ofSource source = .ok tokens)
    (cut : Cut source.toList tokens slices rest) :
    Scanned none Pos.start false source.toList tokens rest := by
  obtain ⟨left, scanned⟩ := exists_scanned lexed
  obtain ⟨first, more, -, behind⟩ := cut.exists_behind
  rw [List.drop_zero] at scanned
  rwa [scanned.left_eq Nat.one_pos behind]

end Tokens

end RubyFormat
