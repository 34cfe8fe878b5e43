import Mathlib.Data.List.Infix
import RubyFormat.Proofs.Clean

/-!
# A formatted text keeps its pragmas

Pragmas stand in the comments before the first line of code.  The scanner makes a token of each of
these comments, the parser a statement, and the layout a line, so that they are the first lines of
the formatted text, in the same order.  `Pragmas.commentLines` are these comments as the pragmas of
a text are read from it, and `Token.leadingComments` and `Node.leadingComments` those of tokens and
of statements; each is a start of the next.  Blank lines between comments are lost on the way.  A
comment within the first lines of the source is therefore within as many first lines of the
formatted text, and every word of a pragma is found there again.
-/

namespace RubyFormat

/-! ## Comments before the first line of code -/

namespace Text

/-- A comment as a token has it: one line that starts with `#` and does not end with white space. -/
def IsComment (text : List Char) : Prop :=
  ∃ line, '\n' ∉ line ∧ text = trimRight ('#' :: line)

theorem trimRight_trimRight (text : List Char) : trimRight (trimRight text) = trimRight text := by
  rcases List.eq_nil_or_concat (trimRight text) with none | ⟨front, last, some⟩
  · rw [none]
    rfl
  · rw [List.concat_eq_append] at some
    have solid : isBlank last = false := @solid_of_trimRight text last (by simp [some])
    rw [some, trimRight_of_solid solid]

/-- White space at the start is lost. -/
theorem trim_cons_of_blank {c : Char} (blank : isBlank c = true) (text : List Char) :
    trim (c :: text) = trim text := by
  rw [trim, trim, trimLeft, List.dropWhile_cons_of_pos blank]
  rfl

/-- A character that is no white space stays at the start. -/
theorem trim_cons_of_solid {c : Char} (solid : isBlank c = false) (text : List Char) :
    trim (c :: text) = c :: trimRight text := by
  rw [trim, trimLeft, List.dropWhile_cons_of_neg (by simp [solid]), trimRight_cons solid]

theorem IsComment.exists_body {text : List Char} (isComment : IsComment text) :
    ∃ body, text = '#' :: body ∧ trim text = '#' :: body := by
  obtain ⟨line, -, rfl⟩ := isComment
  have solid : isBlank '#' = false := by decide
  rw [trimRight_cons solid, trim_cons_of_solid solid, trimRight_trimRight]
  exact ⟨_, rfl, rfl⟩

theorem IsComment.single {text : List Char} (isComment : IsComment text) : '\n' ∉ text := by
  obtain ⟨line, single, rfl⟩ := isComment
  obtain ⟨blanks, same, -⟩ := exists_trimRight ('#' :: line)
  intro mem
  have inLine : '\n' ∈ '#' :: line := same ▸ List.mem_append_left blanks mem
  simp [single] at inLine

/-- The first line of a text, up to its line break or to the end of the text. -/
theorem lines_of_line {line rest : List Char} (single : '\n' ∉ line)
    (ends : rest = [] ∨ rest.head? = some '\n') :
    ∃ others, lines (line ++ rest) = line :: others ∧ lines rest = [] :: others := by
  obtain ⟨first, others, restLines, all⟩ := lines_append_left line single rest
  obtain rfl : first = [] := by
    rcases ends with rfl | starts
    · exact (List.cons.inj restLines).1.symm
    · obtain ⟨tail, rfl⟩ := List.head?_eq_some_iff.1 starts
      rw [lines_break] at restLines
      exact (List.cons.inj restLines).1.symm
  exact ⟨others, by rw [all, List.append_nil], restLines⟩

end Text

namespace Pragmas

/-- The comments before the first line of code, without the white space around them. -/
def commentLines : List (List Char) → List (List Char)
  | [] => []
  | line :: rest =>
      match Text.trim line with
      | [] => commentLines rest
      | '#' :: comment => ('#' :: comment) :: commentLines rest
      | _ :: _ => []

theorem commentLines_of_blank {line : List Char} (blank : Text.trim line = [])
    (rest : List (List Char)) : commentLines (line :: rest) = commentLines rest := by
  rw [commentLines, blank]

theorem commentLines_of_comment {line comment : List Char}
    (isComment : Text.trim line = '#' :: comment) (rest : List (List Char)) :
    commentLines (line :: rest) = ('#' :: comment) :: commentLines rest := by
  simp only [commentLines, isComment]

theorem commentLines_of_code {line code : List Char} {c : Char}
    (isCode : Text.trim line = c :: code) (noComment : c ≠ '#') (rest : List (List Char)) :
    commentLines (line :: rest) = [] := by
  rw [commentLines, isCode]
  split
  next same => cases same
  next same => exact absurd (List.cons.inj same).1 noComment
  next => rfl

theorem commentLines_cons_of_solid {c : Char} (solid : Text.isBlank c = false) (noComment : c ≠ '#')
    (text : List Char) : commentLines (Text.lines (c :: text)) = [] := by
  obtain ⟨piece, others, -, all⟩ := @Text.lines_cons c text (Text.ne_break_of_solid solid)
  rw [all]
  exact commentLines_of_code (Text.trim_cons_of_solid solid piece) noComment others

/-- The words of the pragmas are those of the comments before the first line of code. -/
theorem lineWords_eq (lines : List (List Char)) :
    lineWords lines = (commentLines lines).flatMap fun comment => commentWords comment.tail := by
  induction lines with
  | nil => rfl
  | cons line rest ih =>
    unfold lineWords
    split
    next blank => rw [commentLines_of_blank blank, ih]
    next isComment =>
      rw [commentLines_of_comment isComment, ih, List.flatMap_cons, List.tail_cons]
    next noComment isCode => rw [commentLines_of_code isCode noComment, List.flatMap_nil]

/-- So many lines have at most so many comments, and those come first. -/
theorem commentLines_take (lines : List (List Char)) (count : Nat) :
    commentLines (lines.take count) <+: (commentLines lines).take count := by
  induction lines generalizing count with
  | nil => simp [commentLines]
  | cons line rest ih =>
    cases count with
    | zero => exact List.nil_prefix
    | succ count =>
      rw [List.take_succ_cons]
      unfold commentLines
      split
      · exact (ih count).trans (List.take_prefix_take_left (Nat.le_succ count))
      · rw [List.take_succ_cons]
        exact (List.prefix_cons_inj _).2 (ih count)
      · exact List.nil_prefix

/-- Comments that come first are comments before the first line of code. -/
theorem commentLines_append {comments : List (List Char)}
    (each : ∀ comment ∈ comments, Text.IsComment comment) (others : List (List Char)) :
    commentLines (comments ++ others) = comments ++ commentLines others := by
  induction comments with
  | nil => rfl
  | cons comment rest ih =>
    obtain ⟨first, more⟩ := List.forall_mem_cons.1 each
    obtain ⟨body, rfl, trimmed⟩ := first.exists_body
    rw [List.cons_append, commentLines_of_comment trimmed, ih more, List.cons_append]

/--
If the comments before the first line of code are a start of some comments, and the lines of another
text begin with these, then the pragmas in so many lines of the other text have all the words.
-/
theorem lineWords_subset {lines comments others : List (List Char)}
    (each : ∀ comment ∈ comments, Text.IsComment comment) (known : commentLines lines <+: comments)
    (starts : comments <+: others) (count : Nat) :
    lineWords (lines.take count) ⊆ lineWords (others.take count) := by
  obtain ⟨more, rfl⟩ := starts
  have taken : commentLines ((comments ++ more).take count) =
      comments.take count ++ commentLines (more.take (count - comments.length)) := by
    rw [List.take_append]
    exact commentLines_append (fun comment mem => each comment (List.mem_of_mem_take mem)) _
  have found : commentLines (lines.take count) ⊆ comments.take count :=
    ((commentLines_take lines count).trans (known.take count)).subset
  rw [lineWords_eq, lineWords_eq, taken, List.flatMap_append]
  intro word mem
  obtain ⟨comment, inLines, isWord⟩ := List.mem_flatMap.1 mem
  exact List.mem_append_left _ (List.mem_flatMap.2 ⟨comment, found inLines, isWord⟩)

end Pragmas

/-! ## Tokens -/

/-- The comments before the first token that is neither a comment nor a line break. -/
def Token.leadingComments : List Token → List (List Char)
  | [] => []
  | token :: rest =>
      match token.kind with
      | .newline => leadingComments rest
      | .comment => token.text.toList :: leadingComments rest
      | _ => []

namespace Token

theorem leadingComments_of_comment {token : Token} (isComment : token.kind = .comment)
    (rest : List Token) :
    leadingComments (token :: rest) = token.text.toList :: leadingComments rest := by
  rw [leadingComments, isComment]

theorem leadingComments_ofComment (line : List Char) (pos : Pos) (spaced : Bool)
    (rest : List Token) :
    leadingComments (ofComment line pos spaced :: rest) =
      Text.trimRight ('#' :: line) :: leadingComments rest := by
  rw [leadingComments_of_comment rfl, ofComment, String.toList_ofList]

theorem leadingComments_of_other {token : Token} (noBreak : token.kind ≠ .newline)
    (noComment : token.kind ≠ .comment) (rest : List Token) :
    leadingComments (token :: rest) = [] := by
  unfold leadingComments
  split
  next isBreak => exact absurd isBreak noBreak
  next isComment => exact absurd isComment noComment
  next => rfl

theorem mem_of_mem_leadingComments {tokens : List Token} {text : List Char}
    (mem : text ∈ leadingComments tokens) :
    ∃ token ∈ tokens, token.kind = .comment ∧ token.text.toList = text := by
  induction tokens with
  | nil => cases mem
  | cons token rest ih =>
    unfold leadingComments at mem
    split at mem
    · obtain ⟨found, inRest, same⟩ := ih mem
      exact ⟨found, List.mem_cons_of_mem _ inRest, same⟩
    next isComment =>
      rcases List.mem_cons.1 mem with rfl | mem
      · exact ⟨token, List.mem_cons_self, isComment, rfl⟩
      · obtain ⟨found, inRest, same⟩ := ih mem
        exact ⟨found, List.mem_cons_of_mem _ inRest, same⟩
    · cases mem

end Token

theorem Lexeme.isBlank_of_find {previous : Option Token} {first : Char} {text : List Char}
    {lexeme : Lexeme} (found : find previous first text = .ok lexeme) :
    Text.isBlank first = false := by
  rcases solid_or_of_find found with solid | ⟨rfl | rfl, -⟩ | ⟨rfl, -⟩
  · exact solid first List.mem_cons_self
  · decide
  · decide
  · decide

namespace Tokens

theorem isBlank_of_isGap {c : Char} (isGap : isGap c = true) : Text.isBlank c = true := by
  simp only [Tokens.isGap, Bool.or_eq_true, beq_iff_eq] at isGap
  rcases isGap with (rfl | rfl) | rfl <;> decide

/-- The comments of a source are such as a token has them. -/
theorem Scanned.isComment {previous : Option Token} {pos : Pos} {spaced : Bool}
    {text left : List Char} {tokens : Tokens}
    (scanned : Scanned previous pos spaced text tokens left) :
    ∀ token ∈ tokens.body, token.kind = .comment → Text.IsComment token.text.toList := by
  induction scanned with
  | done | mark => exact List.forall_mem_nil _
  | gap _ _ ih | continued _ ih => exact ih
  | newline _ ih =>
    refine List.forall_mem_cons.2 ⟨fun isComment => ?_, ih⟩
    cases isComment
  | @comment _ pos spaced line _ _ _ single _ _ ih =>
    refine List.forall_mem_cons.2 ⟨fun _ => ⟨line, single, ?_⟩, ih⟩
    rw [Token.ofComment, String.toList_ofList]
  | @lexeme _ _ _ _ _ _ _ _ kind _ found _ ih =>
    refine List.forall_mem_cons.2 ⟨fun isComment => ?_, ih⟩
    have same : kind = .comment := isComment
    exact absurd (Lexeme.kind_notMem_of_find found) (by simp [same])

/-- A text has its comments before the first line of code among its first tokens. -/
theorem Scanned.commentLines_prefix {previous : Option Token} {pos : Pos} {spaced : Bool}
    {text left : List Char} {tokens : Tokens}
    (scanned : Scanned previous pos spaced text tokens left) :
    Pragmas.commentLines (Text.lines text) <+: Token.leadingComments tokens.body := by
  induction scanned with
  | done => exact List.nil_prefix
  | mark _ isMark =>
    obtain ⟨rest, rfl, -⟩ := isEndMark_iff.1 isMark
    have none : Pragmas.commentLines (Text.lines ("__END__".toList ++ rest)) = [] :=
      Pragmas.commentLines_cons_of_solid (by decide) (by decide) _
    rw [none]
    exact List.nil_prefix
  | newline _ ih =>
    rw [Text.lines_break, Pragmas.commentLines_of_blank rfl]
    exact ih
  | @gap _ _ _ c tail _ _ isGap _ ih =>
    have blank := isBlank_of_isGap isGap
    have noBreak : c ≠ '\n' := by
      rintro rfl
      cases isGap
    obtain ⟨piece, others, restLines, all⟩ := @Text.lines_cons c tail noBreak
    have same : Pragmas.commentLines ((c :: piece) :: others) =
        Pragmas.commentLines (piece :: others) := by
      simp only [Pragmas.commentLines, Text.trim_cons_of_blank blank]
    rwa [all, same, ← restLines]
  | continued _ _ =>
    rw [Pragmas.commentLines_cons_of_solid (by decide) (by decide)]
    exact List.nil_prefix
  | @comment _ pos spaced line tail _ tokens single ends _ ih =>
    have solid : Text.isBlank '#' = false := by decide
    have noBreak : '\n' ∉ '#' :: line := by simp [single]
    obtain ⟨others, all, restLines⟩ : ∃ others,
        Text.lines ('#' :: (line ++ tail)) = ('#' :: line) :: others ∧
          Text.lines tail = [] :: others :=
      Text.lines_of_line noBreak ends
    rw [restLines, Pragmas.commentLines_of_blank rfl] at ih
    rw [all, Pragmas.commentLines_of_comment (Text.trim_cons_of_solid solid line),
      ← Text.trimRight_cons solid]
    exact (Token.leadingComments_ofComment line pos spaced tokens.body) ▸
      (List.prefix_cons_inj _).2 ih
  | @lexeme _ _ _ first _ _ _ _ _ _ found _ _ =>
    have noComment : first ≠ '#' := fun same => Lexeme.ne_of_find found (by simp [same])
    rw [Pragmas.commentLines_cons_of_solid (Lexeme.isBlank_of_find found) noComment]
    exact List.nil_prefix

end Tokens

/-! ## Statements -/

/-- The comments before the first statement of another kind. -/
def Node.leadingComments : List Node → List (List Char)
  | .comment _ text :: rest => text.toList :: leadingComments rest
  | _ => []

namespace ParseState

/-- Where the next token is neither a comment nor a line break, no comments lead. -/
theorem leadingComments_of_other {s : ParseState} (noBreak : s.current.kind ≠ .newline)
    (noComment : s.current.kind ≠ .comment) : Token.leadingComments s.ahead = [] := by
  obtain ⟨ahead, close, scopes, depth⟩ := s
  cases ahead with
  | nil => rfl
  | cons token rest => exact Token.leadingComments_of_other noBreak noComment rest

theorem leadingComments_of_newline {s : ParseState} (isBreak : s.current.kind = .newline) :
    Token.leadingComments s.ahead = Token.leadingComments s.next.ahead := by
  obtain ⟨ahead, close, scopes, depth⟩ := s
  cases ahead with
  | nil => rfl
  | cons token rest =>
    have isNewline : token.kind = .newline := isBreak
    simp only [Token.leadingComments, isNewline]
    rfl

theorem leadingComments_of_comment {s : ParseState} (isComment : s.current.kind = .comment) :
    Token.leadingComments s.ahead <+:
      s.current.text.toList :: Token.leadingComments s.next.ahead := by
  obtain ⟨ahead, close, scopes, depth⟩ := s
  cases ahead with
  | nil => exact List.nil_prefix
  | cons token rest => exact Token.leadingComments_of_comment isComment rest ▸ List.prefix_rfl

end ParseState

theorem Token.kind_of_endsStmts {words : List String} {token : Token}
    (ends : token.endsStmts words = true) : token.kind ≠ .newline ∧ token.kind ≠ .comment := by
  simp only [endsStmts, Parse.endsBody, Bool.or_eq_true, Bool.and_eq_true, beq_iff_eq] at ends
  rcases ends with isEnd | ⟨isOp | isWord, -⟩ <;> simp_all

theorem Token.kind_of_isBreak {token : Token} (isBreak : token.isBreak = true) :
    token.kind = .newline ∨ token.kind = .op := by
  simp only [Token.isBreak, Token.isOp, Bool.or_eq_true, Bool.and_eq_true, beq_iff_eq] at isBreak
  exact isBreak.imp_right And.left

theorem Token.kind_of_not_isBreak {token : Token} (noBreak : token.isBreak = false) :
    token.kind ≠ .newline := by
  intro isBreak
  simp [Token.isBreak, isBreak] at noBreak

/-- The comments among the first tokens are read as the first statements. -/
theorem Derives.leadingComments_prefix {fits : ParamList → Node → Prop} {rule : Rule}
    {s s' : ParseState} {field : Field Node} (reads : Derives fits rule s field s')
    {words : List String} (isStmts : rule = .stmts words) {stmts : List Node}
    (isList : field = .list stmts) :
    Token.leadingComments s.ahead <+: Node.leadingComments stmts := by
  induction reads generalizing stmts with
  | stmtsDone ends =>
    obtain ⟨noBreak, noComment⟩ := Token.kind_of_endsStmts ends
    rw [ParseState.leadingComments_of_other noBreak noComment]
    exact List.nil_prefix
  | stmtsBreak _ isBreak _ ih =>
    rcases Token.kind_of_isBreak isBreak with isNewline | isOp
    · rw [ParseState.leadingComments_of_newline isNewline]
      exact ih isStmts isList
    · rw [ParseState.leadingComments_of_other (by simp [isOp]) (by simp [isOp])]
      exact List.nil_prefix
  | stmtsComment _ isComment _ ih =>
    cases isList
    exact (ParseState.leadingComments_of_comment isComment).trans
      ((List.prefix_cons_inj _).2 (ih isStmts rfl))
  | stmtsRemark _ noBreak noComment | stmtsLast _ noBreak noComment
  | stmtsMore _ noBreak noComment =>
    rw [ParseState.leadingComments_of_other (Token.kind_of_not_isBreak noBreak) noComment]
    exact List.nil_prefix
  | _ => cases isStmts

/-! ## Lines of the formatted text -/

theorem flatMap_intersperse {f : α → List β} (separator : α) {items : List α}
    (some : items ≠ []) :
    (items.intersperse separator).flatMap f ++ f separator =
      items.flatMap fun item => f item ++ f separator := by
  induction items with
  | nil => exact absurd rfl some
  | cons first rest ih =>
    cases rest with
    | nil => simp
    | cons second rest => simp [← ih (List.cons_ne_nil _ _)]

/-- Each statement of a program has a line break behind it. -/
theorem Layout.chars_program_eq (docs : List Doc) (width : Int) :
    (Layout.program docs).chars width 0 true =
      docs.flatMap fun doc => doc.chars width 0 true ++ ['\n'] := by
  unfold Layout.program
  split
  next none => simp [List.isEmpty_iff.1 none]
  next some =>
    have broken : Doc.hardLine.chars width 0 true = ['\n'] := by simp [Doc.hardLine]
    simp only [Layout.stmts, Doc.join, Doc.chars_concat, List.flatMap_cons, List.flatMap_nil,
      List.append_nil]
    rw [flatMap_intersperse Doc.hardLine (by simpa using some), broken]

/-- Comments that are the first statements are the first lines. -/
theorem Node.leadingComments_prefix {options : Options} {parents stmts : List Node}
    {comments : List (List Char)} (starts : comments <+: leadingComments stmts)
    (single : ∀ comment ∈ comments, '\n' ∉ comment) (width : Int) :
    comments <+: Text.lines ((layoutList options parents stmts).flatMap fun doc =>
      doc.chars width 0 true ++ ['\n']) := by
  induction comments generalizing stmts with
  | nil => exact List.nil_prefix
  | cons comment others ih =>
    obtain ⟨own, singles⟩ := List.forall_mem_cons.1 single
    unfold leadingComments at starts
    split at starts
    next pos text rest =>
      obtain ⟨rfl, inner⟩ := List.cons_prefix_cons.1 starts
      have written : ((layoutList options parents (.comment pos text :: rest)).flatMap fun doc =>
          doc.chars width 0 true ++ ['\n']) =
            text.toList ++ '\n' :: (layoutList options parents rest).flatMap fun doc =>
              doc.chars width 0 true ++ ['\n'] := by
        simp [layoutList, layout]
      obtain ⟨lines, all, restLines⟩ := Text.lines_of_line own (.inr (List.head?_cons ..))
      rw [Text.lines_break] at restLines
      rw [written, all, ← (List.cons.inj restLines).2]
      exact (List.prefix_cons_inj _).2 (ih inner singles)
    · exact absurd (List.prefix_nil.1 starts) (List.cons_ne_nil _ _)

/-- What is written for the program of a source. -/
theorem chars_of_format {options : Options} {source text : String} {pos : Pos} {stmts : List Node}
    (formatted : format options source = .ok text)
    (formats : (Pragmas.ofSource source).skip = false)
    (parsed : Node.ofSource source = .ok (.program pos stmts)) :
    text.toList =
      ((Node.program pos stmts).layout ((Pragmas.ofSource source).apply options) []).chars
        options.indentWidth 0 true := by
  rw [format_eq options source formats parsed, Doc.write] at formatted
  split at formatted
  · cases formatted
  next =>
    obtain rfl := Except.ok.inj formatted
    refine Doc.render_eq_chars ?_
    rcases (Node.printable_of_source parsed).chars_program options.indentWidth with
      none | ⟨front, all, firm⟩
    · rw [none]
      rfl
    · rw [all]
      exact Text.isTrimmed_append (Text.isTrimmed_of_lineEnd? firm) rfl

/-- Every word of a pragma is found again in the formatted text. -/
theorem lineWords_of_format {options : Options} {source text : String}
    (formatted : format options source = .ok text) (count : Nat) :
    Pragmas.lineWords ((Text.lines source.toList).take count) ⊆
      Pragmas.lineWords ((Text.lines text.toList).take count) := by
  cases formats : (Pragmas.ofSource source).skip with
  | true =>
    obtain rfl : source = text := by simpa [format, formats] using formatted
    exact List.Subset.refl _
  | false =>
    cases parsed : Node.ofSource source with
    | error error => simp [format, formats, Doc.ofSource, parsed] at formatted
    | ok tree =>
      obtain ⟨tokens, lexed, ran⟩ := Node.tokens_of_source parsed
      obtain ⟨left, scanned⟩ := Tokens.exists_scanned lexed
      obtain ⟨s, reads⟩ := Reads.of_parse ran
      cases reads with
      | @program _ _ stmts body _ =>
        have each (comment : List Char) (mem : comment ∈ Token.leadingComments tokens.body) :
            Text.IsComment comment := by
          obtain ⟨token, inBody, isComment, rfl⟩ := Token.mem_of_mem_leadingComments mem
          exact scanned.isComment token inBody isComment
        have known : Pragmas.commentLines (Text.lines source.toList) <+:
            Token.leadingComments tokens.body := scanned.commentLines_prefix
        have starts : Token.leadingComments tokens.body <+: Node.leadingComments stmts :=
          body.leadingComments_prefix rfl rfl
        refine Pragmas.lineWords_subset each known ?_ count
        rw [chars_of_format formatted formats parsed, Node.layout, Layout.chars_program_eq]
        exact Node.leadingComments_prefix starts (fun comment mem => (each comment mem).single) _

/-- A formatted text keeps the pragma that asks to collapse blocks. -/
theorem toProc_of_format {options : Options} {source text : String}
    (pragma : (Pragmas.ofSource source).toProc = true)
    (formatted : format options source = .ok text) : (Pragmas.ofSource text).toProc = true := by
  have kept := lineWords_of_format formatted Pragmas.lineCount
  simp only [Pragmas.ofSource, List.contains_iff_mem] at pragma ⊢
  exact kept pragma

/-- A pragma behind blank lines, among other comments and before a block that is collapsed. -/
theorem toProc_of_format_indented :
    let source := "\n\n \t# a\n\n #garnet: x,to-proc \n# b\nc.d \x7b |e| e.f \x7d\n"
    let text := "# a\n#garnet: x,to-proc\n# b\nc.d(&:f)\n"
    (Pragmas.ofSource source).toProc = true ∧ format ⟨false, 4⟩ source = .ok text ∧
      (Pragmas.ofSource text).toProc = true := by
  intro source text
  have pragma : (Pragmas.ofSource source).toProc = true := by decide +kernel
  have formatted : format ⟨false, 4⟩ source = .ok text := by decide +kernel
  exact ⟨pragma, formatted, toProc_of_format pragma formatted⟩

end RubyFormat
